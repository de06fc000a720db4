/-
Model of the times in an MPD (`TimeResolver.cpp`): date-times, durations and the check of the availability interval. The C
library owns the one object that `gmtime` writes and returns, which is the state here. An exception is no result.

- `resolveUTCDateTime_text`: the fields that a date-time is read into.
- `elapsed_run`: no time passes between two pointers, which are the same.
- `checkTimeInterval_iff`: the check is right exactly when no bound is given or a bound is not kept.
- `getDurationInSec_text`: a duration is read as its seconds, whichever of its components are written.
-/
import NdnDash.Core.Calendar
import NdnDash.Core.Double
import NdnDash.Core.Text

namespace NdnDash.Mpd

open NdnDash.Text NdnDash.Calendar

/-! ## The C library -/

/-- a `struct tm*` that is not NULL -/
inductive TmPtr
  | static
deriving DecidableEq, Repr

/-- the object of the C library, and exceptions -/
abbrev Libc := StateT Tm Option

def gmtime (t : ℤ) : Libc TmPtr := do
  set (Tm.ofSeconds t 0)
  return .static

def mktime (zone : Zone) : TmPtr → Libc ℤ
  | .static => do
    let tm ← get
    set (zone.settled tm)
    return zone.mktime tm

/-- `difftime(mktime(later), mktime(earlier))`; either call may be the first -/
def elapsed (zone : Zone) (later earlier : TmPtr) : Libc ℤ := do
  let t ← mktime zone later
  let t' ← mktime zone earlier
  return t - t'

/-! ## Date-times -/

/-- `SplitToI` -/
def splitToI (delim : Char) (s : Str) : List ℤ := (split delim s).map atoi

/-- `ResolveUTCDateTime` when `time` returns `now` -/
def resolveUTCDateTime (now : ℤ) (dateTimeString : Str) : Libc (Option TmPtr) := do
  if dateTimeString = [] then
    return none
  let timeInfo ← gmtime now
  let timeString := dateTimeString.take (dateTimeString.length - 1)
  let dateTime := split 'T' timeString
  let dateChunks := splitToI '-' (← dateTime[0]?)
  let timeChunks := splitToI ':' (← dateTime[1]?)
  let tm ← get
  set { tm with
    tm_year := (← dateChunks[0]?) - 1900
    tm_mon := (← dateChunks[1]?) - 1
    tm_mday := (← dateChunks[2]?)
    tm_hour := (← timeChunks[0]?)
    tm_min := (← timeChunks[1]?)
    tm_sec := (← timeChunks[2]?) }
  return some timeInfo

/-- `GetCurrentUTCTime` -/
def getCurrentUTCTime (now : ℤ) : Libc TmPtr := gmtime now

/-- `CheckTimeInterval` -/
def checkTimeInterval (zone : Zone) (now : ℤ) (availabilityStartTime availabilityEndTime : Str) : Libc Bool := do
  let startTime ← resolveUTCDateTime now availabilityStartTime
  let currentTime ← getCurrentUTCTime now
  let endTime ← resolveUTCDateTime now availabilityEndTime
  match startTime with
  | none =>
    match endTime with
    | none => return true
    | some endTime => return decide (0 < (← elapsed zone endTime currentTime))
  | some startTime =>
    if 0 < (← elapsed zone currentTime startTime) then
      match endTime with
      | none => return true
      | some endTime => return decide (0 < (← elapsed zone endTime currentTime))
    else
      return false

/-- a UTC date-time; the date is one of the calendar -/
structure DateTime where
  year : ℕ
  month : ℕ
  day : ℕ
  hour : ℕ
  minute : ℕ
  second : ℕ
  year_lt : year < 10000
  calendar : date (days year month day) = (↑year, ↑month, ↑day)
  hour_lt : hour < 24
  minute_lt : minute < 60
  second_lt : second < 60

namespace DateTime

def dateText (d : DateTime) : Str := padded 4 d.year ++ '-' :: (padded 2 d.month ++ '-' :: padded 2 d.day)

def timeText (d : DateTime) : Str := padded 2 d.hour ++ ':' :: (padded 2 d.minute ++ ':' :: padded 2 d.second)

/-- `YYYY-MM-DDTHH:MM:SSZ` -/
def text (d : DateTime) : Str := d.dateText ++ 'T' :: d.timeText ++ ['Z']

/-- the seconds since 1970 -/
def instant (d : DateTime) : ℤ := days d.year d.month d.day * 86400 + d.hour * 3600 + d.minute * 60 + d.second

/-- its fields in the object of the C library -/
def tm (d : DateTime) : Tm where
  tm_year := d.year - 1900
  tm_mon := d.month - 1
  tm_mday := d.day
  tm_hour := d.hour
  tm_min := d.minute
  tm_sec := d.second

/-- what is written of a date-time that may be absent -/
def textOf : Option DateTime → Str
  | none => []
  | some d => d.text

theorem range (d : DateTime) : 1 ≤ d.month ∧ d.month ≤ 12 ∧ d.day ≤ 31 := by
  obtain ⟨hmonth, hmonth', hday, hday'⟩ := date_range (days d.year d.month d.day)
  rw [d.calendar] at hmonth hmonth' hday hday'
  simp only at hmonth hmonth' hday hday'
  omega

end DateTime

/-- the interval contains the time -/
def Available (start stop : Option DateTime) (now : ℤ) : Prop :=
  (∀ d ∈ start, d.instant < now) ∧ ∀ d ∈ stop, now < d.instant

/-! ## Reading a date-time -/

section Reading

variable {zone : Zone} {now : ℤ} {d : DateTime}

theorem atoi_padded {width n : ℕ} (h : n < 2 ^ 31) : atoi (padded width n) = n := by
  have hdigits : ∀ c ∈ padded width n, c.isDigit = true := fun c hc => isDigit_zeros hc
  rw [atoi, strtol_of_digits hdigits, padded, value_zeros, toInt_eq (by omega) (by omega)]
  omega

theorem notMem_padded {width n : ℕ} {c : Char} (h : c.isDigit = false) : c ∉ padded width n :=
  notMem_of_digits (fun _ hc => isDigit_zeros hc) h

theorem padded_ne_nil (width n : ℕ) : padded width n ≠ [] := List.append_ne_nil_of_right_ne_nil _ (decimal_ne_nil n)

/-- three numbers between delimiters -/
theorem splitToI_padded {c : Char} (hc : c.isDigit = false) {w₁ w₂ w₃ n₁ n₂ n₃ : ℕ} (h₁ : n₁ < 2 ^ 31)
    (h₂ : n₂ < 2 ^ 31) (h₃ : n₃ < 2 ^ 31) :
    splitToI c (padded w₁ n₁ ++ c :: (padded w₂ n₂ ++ c :: padded w₃ n₃)) = [(n₁ : ℤ), (n₂ : ℤ), (n₃ : ℤ)] := by
  rw [splitToI, split_append (notMem_padded hc), split_append (notMem_padded hc), split_of_notMem (notMem_padded hc),
    if_neg (padded_ne_nil w₃ n₃)]
  simp only [List.map_cons, List.map_nil, atoi_padded h₁, atoi_padded h₂, atoi_padded h₃]

theorem splitToI_dateText (d : DateTime) :
    splitToI '-' d.dateText = [(d.year : ℤ), (d.month : ℤ), (d.day : ℤ)] := by
  have hyear := d.year_lt
  have hrange := d.range
  exact splitToI_padded rfl (by omega) (by omega) (by omega)

theorem splitToI_timeText (d : DateTime) :
    splitToI ':' d.timeText = [(d.hour : ℤ), (d.minute : ℤ), (d.second : ℤ)] := by
  have hhour := d.hour_lt
  have hminute := d.minute_lt
  have hsecond := d.second_lt
  exact splitToI_padded rfl (by omega) (by omega) (by omega)

/-- the date and the time are what is split at the letter between them -/
theorem split_text (d : DateTime) :
    split 'T' (d.text.take (d.text.length - 1)) = [d.dateText, d.timeText] := by
  have htake : d.text.take (d.text.length - 1) = d.dateText ++ 'T' :: d.timeText := by
    rw [← List.dropLast_eq_take, DateTime.text, List.dropLast_concat]
  have hdate : 'T' ∉ d.dateText := by
    simp [DateTime.dateText, notMem_padded (c := 'T') rfl]
  have htime : 'T' ∉ d.timeText := by
    simp [DateTime.timeText, notMem_padded (c := 'T') rfl]
  have hne : d.timeText ≠ [] := by
    simp [DateTime.timeText]
  rw [htake, split_append hdate, split_of_notMem htime, if_neg hne]

/-- **A date-time.** Its fields are in the object of the C library, whatever was there. -/
theorem resolveUTCDateTime_text (now : ℤ) (d : DateTime) (tm : Tm) :
    (resolveUTCDateTime now d.text).run tm = some (some .static, d.tm) := by
  have hne : d.text ≠ [] := by
    simp [DateTime.text]
  simp [resolveUTCDateTime, hne, gmtime, split_text, splitToI_dateText, splitToI_timeText]
  rfl

theorem resolveUTCDateTime_nil (now : ℤ) (tm : Tm) : (resolveUTCDateTime now []).run tm = some (none, tm) := rfl

end Reading

/-! ## The interval -/

section Interval

variable {start stop : Option DateTime}

/-- **Two pointers.** They are the same, so no time passes between them. -/
theorem elapsed_run (zone : Zone) (later earlier : TmPtr) (tm : Tm) :
    (elapsed zone later earlier).run tm = some (0, zone.settled (zone.settled tm)) := by
  cases later
  cases earlier
  simp [elapsed, mktime, mktime_settled]

/-- the check holds if there is nothing to check -/
theorem checkTimeInterval_text (zone : Zone) (now : ℤ) (start stop : Option DateTime) (tm : Tm) :
    (checkTimeInterval zone now (DateTime.textOf start) (DateTime.textOf stop)).run' tm =
      some (decide (start = none ∧ stop = none)) := by
  cases start with
  | none =>
    cases stop with
    | none => rfl
    | some d =>
      simp [checkTimeInterval, DateTime.textOf, StateT.run'_eq, resolveUTCDateTime_nil, resolveUTCDateTime_text,
        getCurrentUTCTime, gmtime, elapsed_run]
  | some d =>
    cases stop with
    | none =>
      simp [checkTimeInterval, DateTime.textOf, StateT.run'_eq, resolveUTCDateTime_nil, resolveUTCDateTime_text,
        getCurrentUTCTime, gmtime, elapsed_run]
    | some d' =>
      simp [checkTimeInterval, DateTime.textOf, StateT.run'_eq, resolveUTCDateTime_text,
        getCurrentUTCTime, gmtime, elapsed_run]

/-- **The availability interval.** The check tells whether the interval contains the time exactly when no bound is given or
a bound that is given is not kept. -/
theorem checkTimeInterval_iff (zone : Zone) (now : ℤ) (start stop : Option DateTime) (tm : Tm) :
    (∃ b, (checkTimeInterval zone now (DateTime.textOf start) (DateTime.textOf stop)).run' tm = some b ∧
        (b = true ↔ Available start stop now)) ↔
      (start = none ∧ stop = none) ∨ (∃ d ∈ start, now ≤ d.instant) ∨ ∃ d ∈ stop, d.instant ≤ now := by
  have hout : (∃ d ∈ start, now ≤ d.instant) ∨ (∃ d ∈ stop, d.instant ≤ now) ↔ ¬ Available start stop now := by
    simp only [Available, not_and_or, not_forall, not_lt, exists_prop]
  have hnone : start = none ∧ stop = none → Available start stop now := by
    rintro ⟨rfl, rfl⟩
    exact ⟨by simp, by simp⟩
  rw [checkTimeInterval_text, hout]
  simp only [Option.some.injEq, exists_eq_left', decide_eq_true_eq]
  refine ⟨fun h => ?_, fun h => ?_⟩
  · by_cases hbounds : start = none ∧ stop = none
    · exact Or.inl hbounds
    · exact Or.inr fun havailable => hbounds (h.2 havailable)
  · rcases h with hbounds | hunavailable
    · exact ⟨hnone, fun _ => hbounds⟩
    · exact ⟨hnone, fun havailable => absurd havailable hunavailable⟩

/-- 2014-01-01T00:00:00Z -/
def newYear2014 : DateTime where
  year := 2014
  month := 1
  day := 1
  hour := 0
  minute := 0
  second := 0
  year_lt := by decide
  calendar := by decide +kernel
  hour_lt := by decide
  minute_lt := by decide
  second_lt := by decide

/-- in November 2023, what is available from 2014 on is not -/
theorem interval_refused :
    newYear2014.text = "2014-01-01T00:00:00Z".toList ∧
      (checkTimeInterval (.fixed 0) 1700000000 (DateTime.textOf (some newYear2014)) (DateTime.textOf none)).run'
        (Tm.ofSeconds 0 0) = some false ∧
      newYear2014.instant < 1700000000 ∧
      ¬ ∃ b, (checkTimeInterval (.fixed 0) 1700000000 (DateTime.textOf (some newYear2014)) (DateTime.textOf none)).run'
        (Tm.ofSeconds 0 0) = some b ∧ (b = true ↔ Available (some newYear2014) none 1700000000) := by
  have hlt : newYear2014.instant < 1700000000 := by decide +kernel
  have hfalse : (checkTimeInterval (.fixed 0) 1700000000 (DateTime.textOf (some newYear2014))
      (DateTime.textOf none)).run' (Tm.ofSeconds 0 0) = some false := by
    decide +kernel
  refine ⟨by decide +kernel, hfalse, hlt, ?_⟩
  rintro ⟨b, hb, hiff⟩
  rw [hfalse, Option.some.injEq] at hb
  subst hb
  exact absurd (hiff.2 ⟨by simpa using hlt, by simp⟩) (by decide)

end Interval

/-! ## Durations -/

/-- one search for a designator: what is read in front of it, and where the next search begins -/
def component {α : Type} (read : Str → α) (value : α) (duration : Str) (startPos : ℕ) (designator : Char) : α × ℕ :=
  match find [designator] (duration.drop startPos) with
  | some n => (read ((duration.drop startPos).take n), startPos + n + 1)
  | none => (value, startPos)

/-- `GetDurationInSec`; `strtod` is given -/
def getDurationInSec (strtod : Str → Double) (duration : Str) : Double :=
  if duration = [] ∨ duration.take 2 ≠ "PT".toList then 0
  else
    let (hours, startPos) := component (fun s => UInt32.ofInt (strtol s)) 0 duration 2 'H'
    let (mins, startPos) := component (fun s => UInt32.ofInt (strtol s)) 0 duration startPos 'M'
    let (secs, _) := component strtod 0 duration startPos 'S'
    Double.finite (hours * 3600 + mins * 60).toNat + secs

/-- digits, and others behind a point; one of the two may be missing -/
structure Decimal where
  whole : Str
  fraction : Option Str
  isDigit : ∀ c ∈ whole ++ fraction.getD [], c.isDigit = true
  ne_nil : whole ++ fraction.getD [] ≠ []

namespace Decimal

def text (s : Decimal) : Str := s.whole ++ (s.fraction.map ('.' :: ·)).getD []

def value (s : Decimal) : ℚ := Text.value s.whole + Text.value (s.fraction.getD []) / 10 ^ (s.fraction.getD []).length

end Decimal

/-- the components of a duration that are written -/
structure Duration where
  hours : Option Numeral
  minutes : Option Numeral
  seconds : Option Decimal

/-- a component with its designator -/
def designated (designator : Char) : Option Str → Str
  | none => []
  | some s => s ++ [designator]

namespace Duration

/-- what the whole hours and minutes are in seconds -/
def whole (d : Duration) : ℕ := 3600 * (d.hours.map Numeral.value).getD 0 + 60 * (d.minutes.map Numeral.value).getD 0

/-- the seconds of a duration -/
def value (d : Duration) : ℚ := d.whole + (d.seconds.map Decimal.value).getD 0

def hoursText (d : Duration) : Str := designated 'H' (d.hours.map Numeral.digits)

def minutesText (d : Duration) : Str := designated 'M' (d.minutes.map Numeral.digits)

def secondsText (d : Duration) : Str := designated 'S' (d.seconds.map Decimal.text)

/-- `PT<h>H<m>M<s>S` -/
def text (d : Duration) : Str := "PT".toList ++ (d.hoursText ++ (d.minutesText ++ d.secondsText))

end Duration

section Durations

/-- **One component.** The search ends at its own designator, and finds none if the component is not written. -/
theorem component_designated {α : Type} (read : Str → α) (value : α) (before rest : Str) {o : Option Str} {c : Char}
    (ho : ∀ s ∈ o, c ∉ s) (hrest : c ∉ rest) :
    component read value (before ++ (designated c o ++ rest)) before.length c =
      ((o.map read).getD value, (before ++ designated c o).length) := by
  rw [component, List.drop_left]
  cases o with
  | none => simp [designated, find_of_notMem hrest]
  | some s =>
    have hs : c ∉ s := ho s rfl
    simp [designated, find_append hs]
    omega

/-- a designator is not among other components -/
theorem notMem_designated {o : Option Str} {c c' : Char} (ho : ∀ s ∈ o, c ∉ s) (hc : c ≠ c') : c ∉ designated c' o := by
  cases o with
  | none => exact List.not_mem_nil
  | some s => simp [designated, ho s rfl, hc]

/-- a letter is not in the digits of a component -/
theorem notMem_digits {o : Option Numeral} {c : Char} (hc : c.isDigit = false) : ∀ s ∈ o.map Numeral.digits, c ∉ s := by
  intro s hs
  obtain ⟨n, -, rfl⟩ := Option.mem_map.1 hs
  exact notMem_of_digits n.isDigit hc

theorem notMem_decimal {o : Option Decimal} {c : Char} (hc : c.isDigit = false) (hpoint : c ≠ '.') :
    ∀ s ∈ o.map Decimal.text, c ∉ s := by
  rintro s hs hmem
  obtain ⟨n, -, rfl⟩ := Option.mem_map.1 hs
  have hdigit : c ∈ n.whole ++ n.fraction.getD [] := by
    rcases List.mem_append.1 hmem with h | h
    · exact List.mem_append_left _ h
    · cases hf : n.fraction with
      | none => simp [hf] at h
      | some f =>
        simp only [hf, Option.map_some, Option.getD_some, List.mem_cons] at h
        exact List.mem_append_right _ (h.resolve_left hpoint)
  exact notMem_of_digits n.isDigit hc hdigit

/-- a number is read into 32 bits -/
theorem toNat_strtol {n : Numeral} (h : n.value < 2 ^ 32) : (UInt32.ofInt (strtol n.digits)).toNat = n.value := by
  have hstrtol : strtol n.digits = (n.value : ℤ) := by
    rw [strtol_of_digits n.isDigit]
    exact min_eq_right (by rw [Numeral.value] at h; omega)
  have hmod : ((n.value : ℤ) % 2 ^ 32).toNat = n.value := by omega
  calc (UInt32.ofInt (strtol n.digits)).toNat
      = (UInt32.ofNat n.value).toNat := by rw [hstrtol, UInt32.ofInt, hmod]
    _ = n.value := UInt32.toNat_ofNat_of_lt' h

/-- an absent component counts as nothing -/
theorem toNat_component {o : Option Numeral} (h : (o.map Numeral.value).getD 0 < 2 ^ 32) :
    (((o.map Numeral.digits).map fun s => UInt32.ofInt (strtol s)).getD 0).toNat = (o.map Numeral.value).getD 0 := by
  cases o with
  | none => rfl
  | some n => exact toNat_strtol h

theorem notMem_secondsText (d : Duration) {c : Char} (hc : c.isDigit = false) (hpoint : c ≠ '.') (hne : c ≠ 'S') :
    c ∉ d.secondsText :=
  notMem_designated (notMem_decimal hc hpoint) hne

section Searches

variable {α : Type} (read : Str → α) (value : α) (d : Duration)

theorem component_hours : component read value d.text 2 'H' =
    (((d.hours.map Numeral.digits).map read).getD value, ("PT".toList ++ d.hoursText).length) := by
  have hminutes : 'H' ∉ d.minutesText := notMem_designated (notMem_digits rfl) (by decide)
  have hseconds : 'H' ∉ d.secondsText := notMem_secondsText d rfl (by decide) (by decide)
  exact component_designated read value "PT".toList _ (notMem_digits rfl) (by simp [hminutes, hseconds])

theorem component_minutes : component read value d.text ("PT".toList ++ d.hoursText).length 'M' =
    (((d.minutes.map Numeral.digits).map read).getD value, ("PT".toList ++ d.hoursText ++ d.minutesText).length) := by
  have hseconds : 'M' ∉ d.secondsText := notMem_secondsText d rfl (by decide) (by decide)
  rw [Duration.text, ← List.append_assoc]
  exact component_designated read value _ _ (notMem_digits rfl) hseconds

theorem component_seconds : component read value d.text ("PT".toList ++ d.hoursText ++ d.minutesText).length 'S' =
    (((d.seconds.map Decimal.text).map read).getD value,
      ("PT".toList ++ d.hoursText ++ d.minutesText ++ d.secondsText).length) := by
  have hlast := component_designated (o := d.seconds.map Decimal.text) (c := 'S') read value
    ("PT".toList ++ d.hoursText ++ d.minutesText) [] (notMem_decimal rfl (by decide)) List.not_mem_nil
  rw [List.append_nil] at hlast
  rw [Duration.text, ← List.append_assoc, ← List.append_assoc]
  exact hlast

end Searches

/-- **Durations.** A duration is read as its seconds, whichever of its components are written. -/
theorem getDurationInSec_text {strtod : Str → Double} (hstrtod : ∀ s : Decimal, strtod s.text = .finite s.value)
    (d : Duration) (h : d.whole < 2 ^ 32) : getDurationInSec strtod d.text = .finite d.value := by
  have hpt : ¬ (d.text = [] ∨ d.text.take 2 ≠ "PT".toList) := by
    simp [Duration.text]
  have hwhole : d.whole = 3600 * (d.hours.map Numeral.value).getD 0 + 60 * (d.minutes.map Numeral.value).getD 0 := rfl
  have hhours := toNat_component (o := d.hours) (by omega)
  have hmins := toNat_component (o := d.minutes) (by omega)
  have hsecs : ((d.seconds.map Decimal.text).map strtod).getD 0 =
      Double.finite ((d.seconds.map Decimal.value).getD 0) := by
    cases d.seconds with
    | none => rfl
    | some s => exact hstrtod s
  rw [getDurationInSec, if_neg hpt]
  simp only [component_hours, component_minutes, component_seconds, hsecs]
  -- the whole seconds stay below 2^32
  generalize ((d.hours.map Numeral.digits).map fun s => UInt32.ofInt (strtol s)).getD 0 = hours at hhours
  generalize ((d.minutes.map Numeral.digits).map fun s => UInt32.ofInt (strtol s)).getD 0 = mins at hmins
  have hsum : (hours * 3600 + mins * 60).toNat = d.whole := by
    rw [UInt32.toNat_add, UInt32.toNat_mul, UInt32.toNat_mul, hhours, hmins]
    simp
    omega
  calc Double.finite (hours * 3600 + mins * 60).toNat + Double.finite ((d.seconds.map Decimal.value).getD 0)
      = Double.finite ((hours * 3600 + mins * 60).toNat + (d.seconds.map Decimal.value).getD 0) := Double.finite_add _ _
    _ = Double.finite d.value := by rw [hsum, Duration.value]

/-- a `strtod` for digits with a point among them -/
def strtodPlain (s : Str) : Double :=
  let fraction := ((s.dropWhile Char.isDigit).drop 1).takeWhile Char.isDigit
  .finite (Text.value (s.takeWhile Char.isDigit) + Text.value fraction / 10 ^ fraction.length)

theorem strtodPlain_text (s : Decimal) : strtodPlain s.text = .finite s.value := by
  have hwhole : ∀ c ∈ s.whole, c.isDigit = true := fun c hc => s.isDigit c (List.mem_append_left _ hc)
  have hfraction : ∀ c ∈ s.fraction.getD [], c.isDigit = true := fun c hc => s.isDigit c (List.mem_append_right _ hc)
  simp only [strtodPlain, Decimal.text, Decimal.value, List.takeWhile_append_of_pos hwhole,
    List.dropWhile_append_of_pos hwhole]
  cases hf : s.fraction with
  | none => simp
  | some f =>
    have htake : f.takeWhile Char.isDigit = f := List.takeWhile_eq_self_iff.2 (by simpa [hf] using hfraction)
    simp [htake]

/-- the duration of a presentation -/
theorem getDurationInSec_presentation :
    getDurationInSec strtodPlain "PT0H9M56.46S".toList = .finite (59646 / 100) := by
  let d : Duration := {
    hours := some ⟨['0'], by decide, by simp⟩
    minutes := some ⟨['9'], by decide, by simp⟩
    seconds := some ⟨"56".toList, some "46".toList, by simp, by decide⟩ }
  have hvalue : d.value = 59646 / 100 := by decide +kernel
  have hresult : getDurationInSec strtodPlain d.text = .finite d.value :=
    getDurationInSec_text strtodPlain_text d (by decide)
  rw [hvalue] at hresult
  exact hresult

end Durations

end NdnDash.Mpd
