/-
The broken-down time of the C library (`struct tm`), with the Gregorian calendar and the time zone it is read in. A time
is a number of seconds since the beginning of 1970.

- `seconds_ofSeconds`: a broken-down time is put together again.
- `mktime_settled`: `mktime` leaves an object that it reads as the same time again.
-/
import Mathlib.Tactic

namespace NdnDash.Calendar

/-- `struct tm`, without the day of the week and of the year, which are written and never read -/
structure Tm where
  tm_year : ℤ
  tm_mon : ℤ
  tm_mday : ℤ
  tm_hour : ℤ
  tm_min : ℤ
  tm_sec : ℤ
  tm_isdst : ℤ := 0
deriving DecidableEq, Repr

/-! ## Days -/

/-- the days from 1 March 2000 to 1 March of the year `y` after it -/
def marchDays (y : ℤ) : ℤ := 365 * y + y / 4 - y / 100 + y / 400

/-- the days since 1970 of a date; the year is taken to begin in March, so that the day of a leap year is its last -/
def days (year month day : ℤ) : ℤ :=
  if month ≤ 2 then 11017 + marchDays (year - 2001) + (153 * (month + 9) + 2) / 5 + (day - 1)
  else 11017 + marchDays (year - 2000) + (153 * (month - 3) + 2) / 5 + (day - 1)

/-- the year after 2000 that begins in March, and the day in it, of a day since 1 March 2000 -/
def marchYear (z : ℤ) : ℤ × ℤ :=
  let century := min 3 (z % 146097 / 36524)
  let doc := z % 146097 - century * 36524
  let quad := doc / 1461
  let doq := doc - quad * 1461
  let rest := min 3 (doq / 365)
  (z / 146097 * 400 + century * 100 + quad * 4 + rest, doq - rest * 365)

/-- the date of a day since 1970 -/
def date (n : ℤ) : ℤ × ℤ × ℤ :=
  let (y, doy) := marchYear (n - 11017)
  let mp := (5 * doy + 2) / 153
  let day := doy - (153 * mp + 2) / 5 + 1
  if mp < 10 then (y + 2000, mp + 3, day) else (y + 2001, mp - 9, day)

/-- the day is one of the year, and it is so many days after 1 March 2000 -/
theorem marchYear_spec (z : ℤ) :
    0 ≤ (marchYear z).2 ∧ (marchYear z).2 ≤ 365 ∧ marchDays (marchYear z).1 + (marchYear z).2 = z := by
  simp only [marchYear, marchDays]
  set era := z / 146097
  set century := min 3 (z % 146097 / 36524)
  have hcentury : 0 ≤ century ∧ century ≤ 3 := by omega
  set doc := z % 146097 - century * 36524
  have hdoc : 0 ≤ doc ∧ doc ≤ 36524 := by omega
  set quad := doc / 1461
  have hquad : 0 ≤ quad ∧ quad ≤ 24 := by omega
  set doq := doc - quad * 1461
  have hdoq : 0 ≤ doq ∧ doq ≤ 1460 := by omega
  set rest := min 3 (doq / 365)
  have hrest : 0 ≤ rest ∧ rest ≤ 3 := by omega
  refine ⟨by omega, by omega, ?_⟩
  -- the leap years before it
  have h4 : (era * 400 + century * 100 + quad * 4 + rest) / 4 = era * 100 + century * 25 + quad := by omega
  have h100 : (era * 400 + century * 100 + quad * 4 + rest) / 100 = era * 4 + century := by omega
  have h400 : (era * 400 + century * 100 + quad * 4 + rest) / 400 = era := by omega
  rw [h4, h100, h400]
  omega

theorem date_range (n : ℤ) :
    1 ≤ (date n).2.1 ∧ (date n).2.1 ≤ 12 ∧ 1 ≤ (date n).2.2 ∧ (date n).2.2 ≤ 31 := by
  obtain ⟨hdoy, hdoy', -⟩ := marchYear_spec (n - 11017)
  simp only [date]
  split_ifs with h10
  · dsimp only
    omega
  · dsimp only
    omega

/-- **Dates.** A day is the day of its date. -/
theorem days_date (n : ℤ) : days (date n).1 (date n).2.1 (date n).2.2 = n := by
  obtain ⟨hdoy, hdoy', hsum⟩ := marchYear_spec (n - 11017)
  rcases hp : marchYear (n - 11017) with ⟨y, doy⟩
  rw [hp] at hdoy hdoy' hsum
  simp only at hdoy hdoy' hsum
  simp only [date, hp]
  have hmp : 0 ≤ (5 * doy + 2) / 153 ∧ (5 * doy + 2) / 153 ≤ 11 := by omega
  generalize (5 * doy + 2) / 153 = mp at hmp
  by_cases h10 : mp < 10
  · have hyear : y + 2000 - 2000 = y := by omega
    simp only [if_pos h10, days, hyear]
    rw [if_neg (by omega), add_sub_cancel_right]
    omega
  · have hyear : y + 2001 - 2001 = y := by omega
    simp only [if_neg h10, days, hyear]
    rw [if_pos (by omega), sub_add_cancel]
    omega

/-! ## Broken-down times -/

namespace Tm

/-- the seconds since 1970 of a broken-down time; a field out of its range is carried over -/
def seconds (tm : Tm) : ℤ :=
  days (tm.tm_year + 1900 + tm.tm_mon / 12) (tm.tm_mon % 12 + 1) tm.tm_mday * 86400 + tm.tm_hour * 3600 +
    tm.tm_min * 60 + tm.tm_sec

/-- the broken-down time of the seconds since 1970 -/
def ofSeconds (t isdst : ℤ) : Tm :=
  let (year, month, day) := date (t / 86400)
  { tm_year := year - 1900, tm_mon := month - 1, tm_mday := day, tm_hour := t % 86400 / 3600,
    tm_min := t % 3600 / 60, tm_sec := t % 60, tm_isdst := isdst }

end Tm

/-- **Broken-down times.** The fields are put together to the time they were made of. -/
theorem seconds_ofSeconds (t isdst : ℤ) : (Tm.ofSeconds t isdst).seconds = t := by
  obtain ⟨hmonth, hmonth', -⟩ := date_range (t / 86400)
  have hdays := days_date (t / 86400)
  rcases hdate : date (t / 86400) with ⟨year, month, day⟩
  rw [hdate] at hmonth hmonth' hdays
  simp only at hmonth hmonth' hdays
  simp only [Tm.seconds, Tm.ofSeconds, hdate]
  have hyear : year - 1900 + 1900 + (month - 1) / 12 = year := by omega
  have hmon : (month - 1) % 12 + 1 = month := by omega
  calc days (year - 1900 + 1900 + (month - 1) / 12) ((month - 1) % 12 + 1) day * 86400 + t % 86400 / 3600 * 3600 +
        t % 3600 / 60 * 60 + t % 60
      = t / 86400 * 86400 + t % 86400 / 3600 * 3600 + t % 3600 / 60 * 60 + t % 60 := by rw [hyear, hmon, hdays]
    _ = t := by omega

/-! ## Local time -/

/-- a time zone: its offset from UTC and whether daylight saving time is in effect at each time, and the time that a local
time is, given what is said of daylight saving time -/
structure Zone where
  offset : ℤ → ℤ
  isdst : ℤ → ℤ
  instant : ℤ → ℤ → ℤ
  instant_local : ∀ t, instant (t + offset t) (isdst t) = t

/-- a zone with one offset all year -/
def Zone.fixed (offset : ℤ) : Zone where
  offset _ := offset
  isdst _ := 0
  instant s _ := s - offset
  instant_local _ := by omega

/-- what `mktime` returns for an object -/
def Zone.mktime (zone : Zone) (tm : Tm) : ℤ := zone.instant tm.seconds tm.tm_isdst

/-- what `mktime` leaves in the object -/
def Zone.settled (zone : Zone) (tm : Tm) : Tm :=
  let t := zone.mktime tm
  .ofSeconds (t + zone.offset t) (zone.isdst t)

/-- **`mktime` again.** The object it leaves is the same time. -/
theorem mktime_settled (zone : Zone) (tm : Tm) : zone.mktime (zone.settled tm) = zone.mktime tm := by
  calc zone.mktime (zone.settled tm)
      = zone.instant (zone.mktime tm + zone.offset (zone.mktime tm)) (zone.isdst (zone.mktime tm)) := by
        rw [Zone.settled, Zone.mktime, seconds_ofSeconds]
        rfl
    _ = zone.mktime tm := zone.instant_local _

end NdnDash.Calendar
