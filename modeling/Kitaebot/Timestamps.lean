import Kitaebot.Core.Calendar
import Kitaebot.Core.MachineInt
import Kitaebot.Time

/-!
# Timestamps name the instant

The stamp of an epoch is the text of what a UTC clock reads then, and no operation
on the way there leaves its machine type.
-/

namespace Kitaebot.Time

open Calendar FixedWidth MachineInt

/-! ### Years that start in March -/

/-- The days from 1 March of the year 0 to 1 March of a year. -/
def daysBefore (year : ℕ) : ℕ := 365 * year + year / 4 - year / 100 + year / 400

/-- A February ends the year that started the March before. -/
theorem daysBefore_succ (year : ℕ) :
    daysBefore (year + 1) =
      daysBefore year + 337 + monthDays (year + 1) 2 := by
  have hfour : (year + 1) / 4 = year / 4 + if (year + 1) % 4 = 0 then 1 else 0 := by
    split_ifs <;> omega
  have hcentury : (year + 1) / 100 =
      year / 100 + if (year + 1) % 100 = 0 then 1 else 0 := by
    split_ifs <;> omega
  have hera : (year + 1) / 400 =
      year / 400 + if (year + 1) % 400 = 0 then 1 else 0 := by
    split_ifs <;> omega
  have hcenturies : year / 100 ≤ year := Nat.div_le_self _ _
  have hfours : (year + 1) % 100 = 0 → (year + 1) % 4 = 0 := by omega
  have hhundreds : (year + 1) % 400 = 0 → (year + 1) % 100 = 0 := by omega
  rw [daysBefore, daysBefore, monthDays, if_pos rfl, hfour, hcentury, hera]
  clear hfour hcentury hera
  generalize year / 4 = fours, year / 100 = centuries, year / 400 = eras at *
  by_cases hleap : Leap (year + 1)
  · rw [if_pos hleap]
    obtain ⟨hmod, hmods⟩ := hleap
    split_ifs <;> omega
  · rw [if_neg hleap]
    rw [Leap, not_and_or, not_or, not_not] at hleap
    split_ifs <;> omega

theorem daysBefore_add (year era : ℕ) :
    daysBefore (year + era * 400) = daysBefore year + 146097 * era := by
  rw [daysBefore, daysBefore]
  omega

theorem yearOfEra_daysBefore {year : ℕ} (hyear : year < 400) :
    yearOfEra (daysBefore year) = year := by
  have hall : ∀ year < 400, yearOfEra (daysBefore year) = year := by
    decide +kernel
  exact hall year hyear

theorem lt_daysBefore {doe : ℕ} (hdoe : doe < 146097) :
    doe < daysBefore (yearOfEra doe + 1) := by
  by_contra hle
  have hyear := yearOfEra_lt hdoe
  have hnext : yearOfEra doe + 1 < 400 := by
    by_contra hlast
    have h399 : yearOfEra doe = 399 := by omega
    rw [h399, daysBefore] at hle
    omega
  have hmono := yearOfEra_mono hdoe (Nat.le_of_not_lt hle)
  rw [yearOfEra_daysBefore hnext] at hmono
  omega

/-- The day is in a year that starts in March, after so many others. -/
structure MarchDay (days year day : ℕ) : Prop where
  start : daysBefore year + day = days
  within : days < daysBefore (year + 1)

theorem marchDay_of_days (days : ℕ) :
    MarchDay days (yearOfEra (days % 146097) + days / 146097 * 400)
      (dayOfYear (days % 146097)) := by
  have hdoe : days % 146097 < 146097 := Nat.mod_lt _ (by decide)
  have hyear := yearOfEra_lt hdoe
  have hstart := yearStart_le hdoe
  have hbefore := lt_daysBefore hdoe
  have hera := Nat.div_add_mod days 146097
  constructor
  · rw [daysBefore_add, daysBefore, dayOfYear]
    omega
  · rw [Nat.add_right_comm, daysBefore_add]
    omega

theorem daysBefore_mono : Monotone daysBefore :=
  monotone_nat_of_le_succ fun year => by
    rw [daysBefore_succ]
    omega

/-- A day is in one year only. -/
theorem MarchDay.unique {days year day year' day' : ℕ}
    (hday : MarchDay days year day) (hday' : MarchDay days year' day') :
    year = year' ∧ day = day' := by
  obtain ⟨hstart, hwithin⟩ := hday
  obtain ⟨hstart', hwithin'⟩ := hday'
  have hyear : year = year' := by
    rcases Nat.lt_trichotomy year year' with hlt | heq | hlt
    · have hmono : daysBefore (year + 1) ≤ daysBefore year' := daysBefore_mono hlt
      omega
    · exact heq
    · have hmono : daysBefore (year' + 1) ≤ daysBefore year := daysBefore_mono hlt
      omega
  rw [← hyear] at hstart'
  exact ⟨hyear, by omega⟩

/-! ### One day later -/

/-- The date of a day of a year that starts in March. -/
def marchDate (year day : ℕ) : Date :=
  let mp := shiftedMonth day
  let month := monthOf mp
  { year := if month ≤ 2 then year + 1 else year
    month := month
    day := day - (153 * mp + 2) / 5 + 1 }

theorem civilFromDays_of_marchDay {z days year day : ℕ}
    (hdays : days = z + 719468) (hday : MarchDay days year day) :
    civilFromDays z = marchDate year day := by
  subst hdays
  obtain ⟨rfl, rfl⟩ := hday.unique (marchDay_of_days (z + 719468))
  rfl

def Date.nextDay (date : Date) : Date :=
  if date.day < monthDays date.year date.month then
    { date with day := date.day + 1 }
  else if date.month < 12 then ⟨date.year, date.month + 1, 1⟩
  else ⟨date.year + 1, 1, 1⟩

/-- The months before February have the lengths that the formula gives them. -/
theorem monthDays_monthOf (year : ℕ) {mp : ℕ} (hmp : mp < 11) :
    monthDays year (monthOf mp) =
      (153 * (mp + 1) + 2) / 5 - (153 * mp + 2) / 5 := by
  interval_cases mp <;> rfl

/-- The last day of such a year is in February. -/
theorem marchDate_february {year day : ℕ} (hlow : 337 ≤ day) (hhigh : day < 367) :
    marchDate year day = ⟨year + 1, 2, day - 336⟩ := by
  have hmp : shiftedMonth day = 11 := by
    rw [shiftedMonth]
    omega
  have hday : day - (153 * 11 + 2) / 5 + 1 = day - 336 := by omega
  rw [marchDate, hmp, hday]
  rfl

theorem monthDays_february (year : ℕ) : monthDays year 2 ≤ 29 := by
  rw [monthDays, if_pos rfl]
  split_ifs <;> decide

theorem marchDate_last {year day : ℕ}
    (hday : day + 1 = 337 + monthDays (year + 1) 2) :
    marchDate (year + 1) 0 = (marchDate year day).nextDay := by
  have hleast := (monthDays_bounds (year + 1) 2).1
  have hfebruary := monthDays_february (year + 1)
  have hold : marchDate year day = ⟨year + 1, 2, day - 336⟩ :=
    marchDate_february (by omega) (by omega)
  have hend : ¬ day - 336 < monthDays (year + 1) 2 := by omega
  rw [hold, Date.nextDay, if_neg hend]
  rfl

theorem marchDate_succ {year day : ℕ}
    (hday : day + 1 < 337 + monthDays (year + 1) 2) :
    marchDate year (day + 1) = (marchDate year day).nextDay := by
  have hfebruary := monthDays_february (year + 1)
  by_cases hlast : 337 ≤ day
  · have hbefore : day - 336 < monthDays (year + 1) 2 := by omega
    have hday : day + 1 - 336 = day - 336 + 1 := by omega
    rw [marchDate_february hlast (by omega),
      marchDate_february (by omega) (by omega), Date.nextDay, if_pos hbefore, hday]
  · have hmp : shiftedMonth day < 11 := by
      rw [shiftedMonth]
      omega
    have hdays := monthDays_monthOf (marchDate year day).year hmp
    have hmonth := monthOf_cases (shiftedMonth day)
    have hmonth' := monthOf_cases (shiftedMonth day + 1)
    have hstart : (153 * shiftedMonth day + 2) / 5 ≤ day := by
      rw [shiftedMonth]
      omega
    have hwithin : day < (153 * (shiftedMonth day + 1) + 2) / 5 := by
      rw [shiftedMonth]
      omega
    rw [Date.nextDay]
    by_cases hsame : day + 1 < (153 * (shiftedMonth day + 1) + 2) / 5
    · have hmp' : shiftedMonth (day + 1) = shiftedMonth day := by
        rw [shiftedMonth, shiftedMonth] at *
        omega
      have hbefore : (marchDate year day).day <
          monthDays (marchDate year day).year (marchDate year day).month := by
        refine Nat.lt_of_lt_of_eq ?_ hdays.symm
        simp only [marchDate]
        omega
      rw [if_pos hbefore]
      simp only [marchDate, hmp', Date.mk.injEq, true_and]
      omega
    · have hmp' : shiftedMonth (day + 1) = shiftedMonth day + 1 := by
        rw [shiftedMonth] at *
        rw [shiftedMonth]
        omega
      have hend : ¬ (marchDate year day).day <
          monthDays (marchDate year day).year (marchDate year day).month := by
        refine fun hbefore => ?_
        have hbefore := Nat.lt_of_lt_of_eq hbefore hdays
        simp only [marchDate] at hbefore
        omega
      rw [if_neg hend]
      by_cases hmonths : (marchDate year day).month < 12
      · rw [if_pos hmonths]
        simp only [marchDate] at hmonths
        simp only [marchDate, hmp', Date.mk.injEq]
        refine ⟨?_, by omega, by omega⟩
        split_ifs <;> omega
      · rw [if_neg hmonths]
        simp only [marchDate] at hmonths
        simp only [marchDate, hmp', Date.mk.injEq]
        refine ⟨?_, by omega, by omega⟩
        split_ifs <;> omega

theorem civilFromDays_succ (z : ℕ) :
    civilFromDays (z + 1) = (civilFromDays z).nextDay := by
  obtain ⟨days, hdays⟩ : ∃ days, days = z + 719468 := ⟨_, rfl⟩
  have hnext : days + 1 = z + 1 + 719468 := by omega
  have hday := marchDay_of_days days
  generalize yearOfEra (days % 146097) + days / 146097 * 400 = year at hday
  generalize dayOfYear (days % 146097) = day at hday
  have hlength := daysBefore_succ year
  have hstart := hday.start
  rw [civilFromDays_of_marchDay hdays hday]
  by_cases hlast : days + 1 < daysBefore (year + 1)
  · have hsame : MarchDay (days + 1) year (day + 1) := ⟨by omega, hlast⟩
    rw [civilFromDays_of_marchDay hnext hsame, marchDate_succ (by omega)]
  · have hwithin := hday.within
    have hlater := daysBefore_succ (year + 1)
    have hfirst : MarchDay (days + 1) (year + 1) 0 := ⟨by omega, by omega⟩
    have hend : day + 1 = 337 + monthDays (year + 1) 2 := by omega
    rw [civilFromDays_of_marchDay hnext hfirst, marchDate_last hend]

/-! ### The date of every day -/

/-- The fields of a date are those of a day of the calendar. -/
structure Shows (date : Date) (day : Day) : Prop where
  year : date.year = day.year
  month : date.month = day.month
  day : date.day = day.day

theorem Shows.next {date : Date} {day : Day} (hshows : Shows date day) :
    Shows date.nextDay day.next := by
  obtain ⟨hyear, hmonth, hday⟩ := hshows
  rw [Date.nextDay, Day.next, hyear, hmonth, hday]
  split_ifs with hsame htwelve
  · exact ⟨rfl, rfl, rfl⟩
  · rw [Day.nextMonth, dif_pos htwelve]
    exact ⟨rfl, rfl, rfl⟩
  · rw [Day.nextMonth, dif_neg htwelve]
    exact ⟨rfl, rfl, rfl⟩

theorem civilFromDays_shows (days : ℕ) : Shows (civilFromDays days) (dayAt days) := by
  induction days with
  | zero => exact ⟨by decide, by decide, by decide⟩
  | succ days ih =>
      rw [civilFromDays_succ, dayAt_succ]
      exact ih.next

/-- A reading as `YYYY-MM-DDTHH:MM:SSZ`. -/
def stamp (reading : Reading) : String :=
  String.ofList (digits 4 reading.date.year ++ ('-' ::
    (digits 2 reading.date.month ++ ('-' :: (digits 2 reading.date.day ++ ('T' ::
      (digits 2 reading.hour ++ (':' :: (digits 2 reading.minute ++ (':' ::
        (digits 2 reading.second ++ ['Z'])))))))))))

theorem formatIso8601_eq_stamp (epoch : ℕ) :
    formatIso8601 epoch = stamp (readingAt epoch) := by
  obtain ⟨hdate, hhour, hminute, hsecond⟩ := readingAt_fields epoch
  obtain ⟨hyear, hmonth, hday⟩ := civilFromDays_shows (epoch / 86400)
  rw [stamp, hdate, hhour, hminute, hsecond, ← hyear, ← hmonth, ← hday]
  rfl

/-! ### In machine integers -/

/-- A `u32` result, none where the build stops. -/
def u32 (value : ℤ) : Option ℕ := unsigned .panics 32 value

/-- An `i64` result, none where the build stops. -/
def i64 (value : ℤ) : Option ℤ := signed .panics 64 value

def yearOfEraChecked (doe : ℕ) : Option ℕ := do
  let days ← u32 (doe - doe / 1460)
  let days ← u32 (days + doe / 36524)
  let days ← u32 (days - doe / 146096)
  return days / 365

def dayOfYearChecked (doe yoe : ℕ) : Option ℕ := do
  let start ← u32 (365 * yoe)
  let start ← u32 (start + yoe / 4)
  let start ← u32 (start - yoe / 100)
  u32 (doe - start)

/-- The month and the day of a day of a year that starts in March. -/
def monthDayChecked (doy : ℕ) : Option (ℕ × ℕ) := do
  let months ← u32 (5 * doy)
  let mp := (← u32 (months + 2)) / 153
  let days ← u32 (153 * mp)
  let start := (← u32 (days + 2)) / 5
  let d ← u32 (doy - start)
  let d ← u32 (d + 1)
  let m ← u32 (if mp < 10 then mp + 3 else mp - 9)
  return (m, d)

/-- `civil_from_days` in the types it computes in; none where an operation leaves
its type. -/
def civilFromDaysChecked (z : ℤ) : Option (ℤ × ℕ × ℕ) := do
  let z ← i64 (z + 719468)
  let era := z / 146097
  let doe := (u32 (z % 146097)).getD 0
  let yoe ← yearOfEraChecked doe
  let years ← i64 (era * 400)
  let y ← i64 (yoe + years)
  let doy ← dayOfYearChecked doe yoe
  let (m, d) ← monthDayChecked doy
  let y ← i64 (if m ≤ 2 then y + 1 else y)
  return (y, m, d)

/-- `{year:04}` of an `i64`. -/
def yearDigits (year : ℤ) : List Char :=
  if year < 0 then '-' :: digits 3 year.natAbs else digits 4 year.toNat

/-- `format_iso8601` of a `u64`, in the types it computes in. -/
def formatIso8601Checked (epoch : ℕ) : Option String := do
  let daysSinceEpoch ← signed .wraps 64 (epoch / 86400 : ℕ)
  let timeOfDay := epoch % 86400
  let hours := timeOfDay / 3600
  let minutes := timeOfDay % 3600 / 60
  let seconds := timeOfDay % 60
  let date ← civilFromDaysChecked daysSinceEpoch
  return String.ofList (yearDigits date.1 ++ ('-' :: (digits 2 date.2.1 ++ ('-' ::
    (digits 2 date.2.2 ++ ('T' :: (digits 2 hours ++ (':' ::
      (digits 2 minutes ++ (':' :: (digits 2 seconds ++ ['Z'])))))))))))

theorem u32_eq {value : ℤ} {result : ℕ} (hvalue : value = result)
    (hfits : result < 2 ^ 32) : u32 value = some result :=
  unsigned_eq hvalue hfits

theorem i64_eq {value : ℤ} {result : ℕ} (hvalue : value = result)
    (hfits : result < 2 ^ 63) : i64 value = some (result : ℤ) :=
  signed_eq hvalue hfits

theorem yearOfEraChecked_eq {doe : ℕ} (hdoe : doe < 146097) :
    yearOfEraChecked doe = some (yearOfEra doe) := by
  have hleaps : u32 ((doe : ℤ) - doe / 1460) = some (doe - doe / 1460) :=
    u32_eq (by omega) (by omega)
  have hcenturies : u32 (((doe - doe / 1460 : ℕ) : ℤ) + doe / 36524) =
      some (doe - doe / 1460 + doe / 36524) :=
    u32_eq (by omega) (by omega)
  have hlast : u32 (((doe - doe / 1460 + doe / 36524 : ℕ) : ℤ) - doe / 146096) =
      some (doe - doe / 1460 + doe / 36524 - doe / 146096) :=
    u32_eq (by omega) (by omega)
  rw [yearOfEraChecked, bind_of_eq hleaps, bind_of_eq hcenturies, bind_of_eq hlast,
    yearOfEra]
  rfl

theorem dayOfYearChecked_eq {doe : ℕ} (hdoe : doe < 146097) :
    dayOfYearChecked doe (yearOfEra doe) = some (dayOfYear doe) := by
  have hyoe := yearOfEra_lt hdoe
  have hstart := yearStart_le hdoe
  rw [dayOfYear]
  generalize yearOfEra doe = yoe at hyoe hstart ⊢
  have hdays : u32 (365 * (yoe : ℤ)) = some (365 * yoe) :=
    u32_eq (by omega) (by omega)
  have hleaps : u32 (((365 * yoe : ℕ) : ℤ) + yoe / 4) = some (365 * yoe + yoe / 4) :=
    u32_eq (by omega) (by omega)
  have hcenturies : u32 (((365 * yoe + yoe / 4 : ℕ) : ℤ) - yoe / 100) =
      some (365 * yoe + yoe / 4 - yoe / 100) :=
    u32_eq (by omega) (by omega)
  have hlast : u32 ((doe : ℤ) - (365 * yoe + yoe / 4 - yoe / 100 : ℕ)) =
      some (doe - (365 * yoe + yoe / 4 - yoe / 100)) :=
    u32_eq (by omega) (by omega)
  rw [dayOfYearChecked, bind_of_eq hdays, bind_of_eq hleaps, bind_of_eq hcenturies,
    hlast]

theorem monthDayChecked_eq (year : ℕ) {doy : ℕ} (hdoy : doy ≤ 365) :
    monthDayChecked doy =
      some ((marchDate year doy).month, (marchDate year doy).day) := by
  have hmonths : u32 (5 * (doy : ℤ)) = some (5 * doy) := u32_eq (by omega) (by omega)
  have hmp : u32 (((5 * doy : ℕ) : ℤ) + 2) = some (5 * doy + 2) :=
    u32_eq (by omega) (by omega)
  have hdays : u32 (153 * (((5 * doy + 2) / 153 : ℕ) : ℤ)) =
      some (153 * ((5 * doy + 2) / 153)) :=
    u32_eq (by omega) (by omega)
  have hstart : u32 (((153 * ((5 * doy + 2) / 153) : ℕ) : ℤ) + 2) =
      some (153 * ((5 * doy + 2) / 153) + 2) :=
    u32_eq (by omega) (by omega)
  have hday : u32 ((doy : ℤ) - ((153 * ((5 * doy + 2) / 153) + 2) / 5 : ℕ)) =
      some (doy - (153 * ((5 * doy + 2) / 153) + 2) / 5) :=
    u32_eq (by omega) (by omega)
  have hfirst : u32 (((doy - (153 * ((5 * doy + 2) / 153) + 2) / 5 : ℕ) : ℤ) + 1) =
      some (doy - (153 * ((5 * doy + 2) / 153) + 2) / 5 + 1) :=
    u32_eq (by omega) (by omega)
  have hmonth : u32 (if (5 * doy + 2) / 153 < 10 then
        (((5 * doy + 2) / 153 : ℕ) : ℤ) + 3
      else (((5 * doy + 2) / 153 : ℕ) : ℤ) - 9) =
      some (monthOf ((5 * doy + 2) / 153)) := by
    rw [monthOf]
    split_ifs
    · exact u32_eq (by omega) (by omega)
    · exact u32_eq (by omega) (by omega)
  rw [monthDayChecked, bind_of_eq hmonths, bind_of_eq hmp, bind_of_eq hdays,
    bind_of_eq hstart, bind_of_eq hday, bind_of_eq hfirst]
  exact bind_of_eq hmonth _

theorem marchDate_year (year day : ℕ) : (marchDate year day).year =
    if (marchDate year day).month ≤ 2 then year + 1 else year := rfl

theorem civilFromDaysChecked_eq {z : ℕ} (hz : z < 2 ^ 48) :
    civilFromDaysChecked z =
      some (((civilFromDays z).year : ℤ), (civilFromDays z).month,
        (civilFromDays z).day) := by
  obtain ⟨days, hdays⟩ : ∃ days, days = z + 719468 := ⟨_, rfl⟩
  have hdoe : days % 146097 < 146097 := Nat.mod_lt _ (by decide)
  have hera : days / 146097 < 2 ^ 48 := by omega
  have hyoe := yearOfEra_lt hdoe
  have hshift : i64 ((z : ℤ) + 719468) = some (days : ℤ) :=
    i64_eq (by omega) (by omega)
  have hrem : (u32 ((days : ℤ) % 146097)).getD 0 = days % 146097 := by
    have hfits : u32 ((days : ℤ) % 146097) = some (days % 146097) :=
      u32_eq (by omega) (by omega)
    rw [hfits, Option.getD_some]
  have hyears : i64 ((days : ℤ) / 146097 * 400) =
      some ((days / 146097 * 400 : ℕ) : ℤ) :=
    i64_eq (by omega) (by omega)
  have hmarch := marchDay_of_days days
  obtain ⟨year, hyear⟩ :
      ∃ year, year = yearOfEra (days % 146097) + days / 146097 * 400 := ⟨_, rfl⟩
  have hstart : i64 ((yearOfEra (days % 146097) : ℤ) +
      (days / 146097 * 400 : ℕ)) = some (year : ℤ) :=
    i64_eq (by omega) (by omega)
  have hdate := monthDayChecked_eq year (dayOfYear_le hdoe)
  rw [← hyear] at hmarch
  rw [civilFromDays_of_marchDay hdays hmarch]
  have hlast : i64 (if (marchDate year (dayOfYear (days % 146097))).month ≤ 2 then
        (year : ℤ) + 1 else year) =
      some ((marchDate year (dayOfYear (days % 146097))).year : ℤ) := by
    rw [marchDate_year]
    split_ifs
    · exact i64_eq (by omega) (by omega)
    · exact i64_eq (by omega) (by omega)
  rw [civilFromDaysChecked, bind_of_eq hshift, hrem,
    bind_of_eq (yearOfEraChecked_eq hdoe), bind_of_eq hyears, bind_of_eq hstart,
    bind_of_eq (dayOfYearChecked_eq hdoe), bind_of_eq hdate]
  exact bind_of_eq hlast _

theorem yearDigits_natCast (year : ℕ) : yearDigits (year : ℤ) = digits 4 year := by
  rw [yearDigits, if_neg (Int.not_lt.2 (Int.natCast_nonneg year)), Int.toNat_natCast]

/-- No step from a 64-bit epoch leaves its type. -/
theorem formatIso8601Checked_eq {epoch : ℕ} (hepoch : epoch < 2 ^ 64) :
    formatIso8601Checked epoch = some (formatIso8601 epoch) := by
  have hdays : signed .wraps 64 ((epoch / 86400 : ℕ) : ℤ) =
      some ((epoch / 86400 : ℕ) : ℤ) :=
    signed_eq rfl (by omega)
  have hdate : civilFromDaysChecked ((epoch / 86400 : ℕ) : ℤ) = _ :=
    civilFromDaysChecked_eq (by omega)
  rw [formatIso8601Checked, bind_of_eq hdays, bind_of_eq hdate,
    yearDigits_natCast, Option.pure_def, Option.some_inj, formatIso8601]

/-! ### Every stamp is right -/

/-- The years of four digits are those of the stamps that are compared. -/
theorem year_lt_iff (epoch : ℕ) :
    (readingAt epoch).date.year < 10000 ↔ epoch < endOfStamps := by
  have hyear := (civilFromDays_shows (epoch / 86400)).year
  rw [(readingAt_fields epoch).1, ← hyear, endOfStamps]
  have hfirst : (civilFromDays 2932897).year = 10000 := by decide
  constructor
  · intro hlt
    by_contra hle
    rcases Nat.lt_or_eq_of_le (show 2932897 ≤ epoch / 86400 by omega) with hlater | heq
    · have hbefore := civilFromDays_lt hlater
      simp only [Date.Before, hfirst] at hbefore
      omega
    · rw [← heq, hfirst] at hlt
      omega
  · intro hlt
    exact civilFromDays_fits (by omega)

/-- A 64-bit epoch is formatted without an overflow.  Before the year 10000 the
stamp is what the clock reads, and is after the stamps of all earlier epochs. -/
theorem formatIso8601_exact {epoch : ℕ} (hepoch : epoch < 2 ^ 64) :
    formatIso8601Checked epoch = some (formatIso8601 epoch) ∧
      ((readingAt epoch).date.year < 10000 →
        formatIso8601 epoch = stamp (readingAt epoch) ∧
          ∀ earlier < epoch, formatIso8601 earlier < formatIso8601 epoch) := by
  refine ⟨formatIso8601Checked_eq hepoch, fun hyear => ?_⟩
  rw [year_lt_iff] at hyear
  exact ⟨formatIso8601_eq_stamp epoch, fun earlier hlt => formatIso8601_lt hyear hlt⟩

/-- The leap day of 2000. -/
theorem formatIso8601_exact_leapDay :
    formatIso8601Checked 951868799 = some (formatIso8601 951868799) ∧
      ((readingAt 951868799).date.year < 10000 →
        formatIso8601 951868799 = stamp (readingAt 951868799) ∧
          ∀ earlier < 951868799, formatIso8601 earlier < formatIso8601 951868799) :=
  formatIso8601_exact (by decide)

end Kitaebot.Time
