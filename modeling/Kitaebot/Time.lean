import Mathlib.Order.Basic
import Mathlib.Tactic.IntervalCases
import Kitaebot.Core.FixedWidth

/-!
# Timestamps

The UTC stamps of `time.rs`.  Up to the end of the year 9999, the last one an
RFC 3339 stamp can name, a later second has a lexicographically greater stamp.
-/

namespace Kitaebot.Time

open Kitaebot.FixedWidth

/-- Years since the last 1 March of a year divisible by 400. -/
def yearOfEra (dayOfEra : ℕ) : ℕ :=
  (dayOfEra - dayOfEra / 1460 + dayOfEra / 36524 - dayOfEra / 146096) / 365

/-- Days since the last 1 March. -/
def dayOfYear (dayOfEra : ℕ) : ℕ :=
  let yoe := yearOfEra dayOfEra
  dayOfEra - (365 * yoe + yoe / 4 - yoe / 100)

/-- Months since the last 1 March. -/
def shiftedMonth (doy : ℕ) : ℕ := (5 * doy + 2) / 153

/-- The month's number, which counts from January. -/
def monthOf (mp : ℕ) : ℕ := if mp < 10 then mp + 3 else mp - 9

structure Date where
  year : ℕ
  month : ℕ
  day : ℕ
  deriving DecidableEq, Repr

/-- The date that many days after 1970-01-01. -/
def civilFromDays (z : ℕ) : Date :=
  let z := z + 719468
  let era := z / 146097
  let doe := z % 146097
  let y := yearOfEra doe + era * 400
  let doy := dayOfYear doe
  let mp := shiftedMonth doy
  let d := doy - (153 * mp + 2) / 5 + 1
  let m := monthOf mp
  { year := if m ≤ 2 then y + 1 else y, month := m, day := d }

/-- A Unix epoch as `YYYY-MM-DDTHH:MM:SSZ`. -/
def formatIso8601 (epoch : ℕ) : String :=
  let daysSinceEpoch := epoch / 86400
  let timeOfDay := epoch % 86400
  let hours := timeOfDay / 3600
  let minutes := timeOfDay % 3600 / 60
  let seconds := timeOfDay % 60
  let date := civilFromDays daysSinceEpoch
  String.ofList (digits 4 date.year ++ ('-' :: (digits 2 date.month ++ ('-' ::
    (digits 2 date.day ++ ('T' :: (digits 2 hours ++ (':' ::
      (digits 2 minutes ++ (':' :: (digits 2 seconds ++ ['Z'])))))))))))

/-- The first second of the year 10000. -/
def endOfStamps : ℕ := 253402300800

theorem yearOfEra_eq {doe : ℕ} (hdoe : doe < 146096) :
    yearOfEra doe = (doe - doe / 1460 + doe / 36524) / 365 := by
  rw [yearOfEra, Nat.div_eq_of_lt hdoe, Nat.sub_zero]

theorem yearOfEra_last : yearOfEra 146096 = 399 := by decide

/-- The hundreds of the year count the centuries of 36524 days. -/
theorem yearOfEra_div_hundred {doe : ℕ} (hdoe : doe < 146096) :
    yearOfEra doe / 100 = doe / 36524 := by
  rw [yearOfEra_eq hdoe, Nat.div_div_eq_div_mul]
  have hcentury : doe / 36524 < 4 := by omega
  have hlow : 36524 * (doe / 36524) ≤ doe := Nat.mul_div_le doe 36524
  have hhigh : doe < 36524 * (doe / 36524) + 36524 := by omega
  generalize doe / 36524 = century at hcentury hlow hhigh ⊢
  interval_cases century <;> omega

/-- Day, year and leap days of an era, with the divisions named. -/
theorem yearOfEra_bounds {doe : ℕ} (hdoe : doe < 146096) :
    365 * yearOfEra doe + yearOfEra doe / 4 - yearOfEra doe / 100 ≤ doe ∧
      doe ≤ 365 * yearOfEra doe + yearOfEra doe / 4 - yearOfEra doe / 100 + 365 ∧
      yearOfEra doe < 400 := by
  have hcentury := yearOfEra_div_hundred hdoe
  have hyear := yearOfEra_eq hdoe
  generalize yearOfEra doe = yoe at hcentury hyear ⊢
  generalize hc : doe / 36524 = century at hcentury hyear
  generalize hl : doe / 1460 = leap at hyear
  have hcentury4 : century < 4 := by omega
  have hleap : 1460 * leap ≤ doe := by omega
  have hcl : century ≤ leap := by omega
  have hdays : 365 * yoe ≤ doe - leap + century ∧
      doe - leap + century < 365 * yoe + 365 := by
    clear hcentury hc hl
    omega
  clear hc hyear
  omega

theorem yearOfEra_lt {doe : ℕ} (hdoe : doe < 146097) : yearOfEra doe < 400 := by
  by_cases hlast : doe < 146096
  · exact (yearOfEra_bounds hlast).2.2
  · obtain rfl : doe = 146096 := by omega
    decide

theorem dayOfYear_le {doe : ℕ} (hdoe : doe < 146097) : dayOfYear doe ≤ 365 := by
  by_cases hlast : doe < 146096
  · have hbound := (yearOfEra_bounds hlast).2.1
    simp only [dayOfYear]
    omega
  · obtain rfl : doe = 146096 := by omega
    decide

theorem yearStart_le {doe : ℕ} (hdoe : doe < 146097) :
    365 * yearOfEra doe + yearOfEra doe / 4 - yearOfEra doe / 100 ≤ doe := by
  by_cases hlast : doe < 146096
  · exact (yearOfEra_bounds hlast).1
  · obtain rfl : doe = 146096 := by omega
    decide

theorem yearOfEra_mono {doe doe' : ℕ} (hdoe : doe' < 146097)
    (hle : doe ≤ doe') : yearOfEra doe ≤ yearOfEra doe' := by
  by_cases hlast : doe' < 146096
  · rw [yearOfEra_eq hlast, yearOfEra_eq (by omega)]
    have hleap : doe - doe / 1460 ≤ doe' - doe' / 1460 := by omega
    exact Nat.div_le_div_right
      (Nat.add_le_add hleap (Nat.div_le_div_right hle))
  · obtain rfl : doe' = 146096 := by omega
    rw [yearOfEra_last]
    exact Nat.le_of_lt_succ (yearOfEra_lt (by omega))

theorem dayOfYear_lt {doe doe' : ℕ} (hdoe : doe' < 146097) (hlt : doe < doe') :
    yearOfEra doe < yearOfEra doe' ∨
      yearOfEra doe = yearOfEra doe' ∧ dayOfYear doe < dayOfYear doe' := by
  rcases Nat.lt_or_eq_of_le (yearOfEra_mono hdoe hlt.le) with hyear | hyear
  · exact .inl hyear
  · have hstart := @yearStart_le doe (by omega)
    refine .inr ⟨hyear, ?_⟩
    simp only [dayOfYear]
    rw [← hyear]
    omega

theorem monthOf_cases (mp : ℕ) :
    mp < 10 ∧ monthOf mp = mp + 3 ∨ 10 ≤ mp ∧ monthOf mp = mp - 9 := by
  rw [monthOf]
  split_ifs <;> omega

/-- The order of dates: by year, then month, then day. -/
def Date.Before (first second : Date) : Prop :=
  first.year < second.year ∨ first.year = second.year ∧
    (first.month < second.month ∨ first.month = second.month ∧
      first.day < second.day)

theorem civilFromDays_lt {z z' : ℕ} (hlt : z < z') :
    (civilFromDays z).Before (civilFromDays z') := by
  have hdoe : (z + 719468) % 146097 < 146097 := Nat.mod_lt _ (by omega)
  have hdoe' : (z' + 719468) % 146097 < 146097 := Nat.mod_lt _ (by omega)
  have hyoe := yearOfEra_lt hdoe
  have hyoe' := yearOfEra_lt hdoe'
  have hdoy := dayOfYear_le hdoe
  have hdoy' := dayOfYear_le hdoe'
  -- A year counts from March here, so January and February close it.
  have hmarch :
      yearOfEra ((z + 719468) % 146097) + (z + 719468) / 146097 * 400 <
          yearOfEra ((z' + 719468) % 146097) + (z' + 719468) / 146097 * 400 ∨
        yearOfEra ((z + 719468) % 146097) + (z + 719468) / 146097 * 400 =
            yearOfEra ((z' + 719468) % 146097) + (z' + 719468) / 146097 * 400 ∧
          dayOfYear ((z + 719468) % 146097) <
            dayOfYear ((z' + 719468) % 146097) := by
    by_cases hera : (z + 719468) / 146097 = (z' + 719468) / 146097
    · have hday : (z + 719468) % 146097 < (z' + 719468) % 146097 := by omega
      rcases dayOfYear_lt hdoe' hday with hyear | ⟨hyear, hday⟩
      · exact .inl (by omega)
      · exact .inr ⟨by omega, hday⟩
    · have hera : (z + 719468) / 146097 < (z' + 719468) / 146097 := by omega
      exact .inl (by omega)
  simp only [civilFromDays, Date.Before, shiftedMonth]
  generalize yearOfEra ((z + 719468) % 146097) +
    (z + 719468) / 146097 * 400 = year at hmarch ⊢
  generalize yearOfEra ((z' + 719468) % 146097) +
    (z' + 719468) / 146097 * 400 = year' at hmarch ⊢
  generalize dayOfYear ((z + 719468) % 146097) = doy at hdoy hmarch ⊢
  generalize dayOfYear ((z' + 719468) % 146097) = doy' at hdoy' hmarch ⊢
  clear hdoe hdoe' hyoe hyoe' hlt
  have hmonth := monthOf_cases ((5 * doy + 2) / 153)
  have hmonth' := monthOf_cases ((5 * doy' + 2) / 153)
  by_cases hearly : monthOf ((5 * doy + 2) / 153) ≤ 2 <;>
    by_cases hearly' : monthOf ((5 * doy' + 2) / 153) ≤ 2 <;>
      simp only [hearly, hearly', if_true, if_false] <;> omega

theorem civilFromDays_fits {days : ℕ} (hdays : days < 2932897) :
    (civilFromDays days).year < 10000 := by
  have hlast : (civilFromDays 2932896).year = 9999 := by decide
  rcases Nat.lt_or_eq_of_le (Nat.le_of_lt_succ hdays) with hlt | rfl
  · have hbefore := civilFromDays_lt hlt
    simp only [Date.Before, hlast] at hbefore
    omega
  · omega

theorem civilFromDays_month_day (days : ℕ) :
    (civilFromDays days).month < 100 ∧ (civilFromDays days).day < 100 := by
  have hdoy := dayOfYear_le
    (Nat.mod_lt (days + 719468) (show 0 < 146097 by omega))
  simp only [civilFromDays, shiftedMonth]
  generalize dayOfYear ((days + 719468) % 146097) = doy at hdoy ⊢
  have hmonth := monthOf_cases ((5 * doy + 2) / 153)
  omega

private theorem ofList_lt {first second : List Char} (hlt : first < second) :
    String.ofList first < String.ofList second := by
  rwa [String.lt_iff_toList_lt, String.toList_ofList, String.toList_ofList]

private theorem separator_lt (separator : Char) {first second : List Char}
    (hlt : first < second) : separator :: first < separator :: second :=
  List.cons_lt_cons_iff.2 (.inr ⟨rfl, hlt⟩)

/-- A later second has a greater stamp. -/
theorem formatIso8601_lt {epoch epoch' : ℕ} (hyear : epoch' < endOfStamps)
    (hlt : epoch < epoch') : formatIso8601 epoch < formatIso8601 epoch' := by
  have hfits : (civilFromDays (epoch' / 86400)).year < 10 ^ 4 :=
    civilFromDays_fits (by rw [endOfStamps] at hyear; omega)
  obtain ⟨hmonth, hday⟩ := civilFromDays_month_day (epoch' / 86400)
  refine ofList_lt (field_lt (by omega) hfits ?_)
  by_cases hdays : epoch / 86400 = epoch' / 86400
  · rw [hdays]
    refine .inr ⟨rfl, separator_lt _ (field_lt (by omega) hmonth (.inr ⟨rfl,
      separator_lt _ (field_lt (by omega) hday (.inr ⟨rfl, ?_⟩))⟩))⟩
    refine separator_lt _ (field_lt (by omega) (by omega) ?_)
    by_cases hhours : epoch % 86400 / 3600 = epoch' % 86400 / 3600
    · refine .inr ⟨hhours, separator_lt _ (field_lt (by omega) (by omega) ?_)⟩
      by_cases hminutes :
          epoch % 86400 % 3600 / 60 = epoch' % 86400 % 3600 / 60
      · exact .inr ⟨hminutes, separator_lt _
          (field_lt (by omega) (by omega) (.inl (by omega)))⟩
      · exact .inl (by omega)
    · exact .inl (by omega)
  · have hdays : epoch / 86400 < epoch' / 86400 := by omega
    rcases civilFromDays_lt hdays with hbefore | ⟨heq, hbefore⟩
    · exact .inl hbefore
    · refine .inr ⟨heq, separator_lt _ (field_lt (by omega) hmonth ?_)⟩
      exact hbefore.imp_right fun ⟨heq, hbefore⟩ =>
        ⟨heq, separator_lt _ (field_lt (by omega) hday (.inl hbefore))⟩

/-- Stamps compare as the seconds they name. -/
theorem formatIso8601_lt_iff {epoch epoch' : ℕ} (hyear : epoch < endOfStamps)
    (hyear' : epoch' < endOfStamps) :
    formatIso8601 epoch < formatIso8601 epoch' ↔ epoch < epoch' := by
  refine ⟨fun hlt => ?_, formatIso8601_lt hyear'⟩
  by_contra hle
  rcases Nat.lt_or_eq_of_le (Nat.le_of_not_lt hle) with hgt | rfl
  · exact lt_asymm hlt (formatIso8601_lt hyear hgt)
  · exact lt_irrefl _ hlt

/-- The stamp up to the seconds. -/
def wholeSeconds (epoch : ℕ) : List Char :=
  (formatIso8601 epoch).toList.dropLast

/-- The characters of a stamp, for any fields. -/
private theorem length_stamp {year month day hours minutes seconds : ℕ}
    (hyear : year < 10 ^ 4) (hmonth : month < 10 ^ 2) (hday : day < 10 ^ 2)
    (hhours : hours < 10 ^ 2) (hminutes : minutes < 10 ^ 2)
    (hseconds : seconds < 10 ^ 2) :
    (digits 4 year ++ ('-' :: (digits 2 month ++ ('-' ::
      (digits 2 day ++ ('T' :: (digits 2 hours ++ (':' ::
        (digits 2 minutes ++ (':' :: (digits 2 seconds ++ ['Z'])))))))))) :
          List Char).length = 20 := by
  simp only [List.length_append, List.length_cons, List.length_nil,
    length_digits hyear (by omega), length_digits hmonth (by omega),
    length_digits hday (by omega), length_digits hhours (by omega),
    length_digits hminutes (by omega), length_digits hseconds (by omega)]

private theorem getLast_stamp {year month day hours minutes seconds : ℕ} :
    (digits 4 year ++ ('-' :: (digits 2 month ++ ('-' ::
      (digits 2 day ++ ('T' :: (digits 2 hours ++ (':' ::
        (digits 2 minutes ++ (':' :: (digits 2 seconds ++ ['Z'])))))))))) :
          List Char).getLast? = some 'Z' := by
  simp [List.getLast?_append, List.getLast?_cons]

theorem length_formatIso8601 {epoch : ℕ} (hyear : epoch < endOfStamps) :
    (formatIso8601 epoch).toList.length = 20 := by
  have hfits : (civilFromDays (epoch / 86400)).year < 10 ^ 4 :=
    civilFromDays_fits (by rw [endOfStamps] at hyear; omega)
  obtain ⟨hmonth, hday⟩ := civilFromDays_month_day (epoch / 86400)
  rw [formatIso8601, String.toList_ofList]
  exact length_stamp hfits hmonth hday (by omega) (by omega) (by omega)

theorem toList_formatIso8601 (epoch : ℕ) :
    (formatIso8601 epoch).toList = wholeSeconds epoch ++ ['Z'] := by
  have hlast : (formatIso8601 epoch).toList.getLast? = some 'Z' := by
    rw [formatIso8601, String.toList_ofList]
    exact getLast_stamp
  exact (List.dropLast_append_getLast? _ hlast).symm

/-- A stamp of the second with digits after it, if there are any. -/
def fractionalStamp (epoch : ℕ) (fraction : List Char) : String :=
  String.ofList (wholeSeconds epoch ++
    ((if fraction.isEmpty then [] else '.' :: fraction) ++ ['Z']))

theorem length_wholeSeconds {epoch : ℕ} (hyear : epoch < endOfStamps) :
    (wholeSeconds epoch).length = 19 := by
  rw [wholeSeconds, List.length_dropLast, length_formatIso8601 hyear]

theorem wholeSeconds_lt {epoch epoch' : ℕ} (hyear' : epoch' < endOfStamps)
    (hlt : epoch < epoch') : wholeSeconds epoch < wholeSeconds epoch' := by
  have hstamps := formatIso8601_lt hyear' hlt
  rw [String.lt_iff_toList_lt, toList_formatIso8601, toList_formatIso8601,
    append_lt_append_iff _ _ (by rw [length_wholeSeconds (hlt.trans hyear'),
      length_wholeSeconds hyear'])] at hstamps
  exact hstamps.resolve_right fun hbad => lt_irrefl _ hbad.2

/-- A fraction hides behind the stamp of its second, because a dot comes before
the letter that ends that stamp. -/
theorem lt_fractionalStamp_iff {epoch epoch' : ℕ} (fraction : List Char)
    (hyear : epoch < endOfStamps) (hyear' : epoch' < endOfStamps) :
    formatIso8601 epoch < fractionalStamp epoch' fraction ↔ epoch < epoch' := by
  have hend : ¬ (['Z'] : List Char) <
      (if fraction.isEmpty then [] else '.' :: fraction) ++ ['Z'] := by
    cases fraction with
    | nil => exact lt_irrefl _
    | cons digit fraction =>
        rintro hlt
        rcases List.cons_lt_cons_iff.1 hlt with hlt | ⟨heq, -⟩
        · exact absurd hlt (by decide)
        · exact absurd heq (by decide)
  rw [String.lt_iff_toList_lt, toList_formatIso8601, fractionalStamp,
    String.toList_ofList, append_lt_append_iff _ _
      (by rw [length_wholeSeconds hyear, length_wholeSeconds hyear'])]
  constructor
  · intro hlt
    by_contra hnot
    rcases Nat.lt_or_eq_of_le (Nat.le_of_not_lt hnot) with hafter | rfl
    · have hafter := wholeSeconds_lt hyear hafter
      rcases hlt with hlt | ⟨heq, -⟩
      · exact lt_asymm hlt hafter
      · rw [heq] at hafter
        exact lt_irrefl _ hafter
    · rcases hlt with hlt | ⟨-, hlt⟩
      · exact lt_irrefl _ hlt
      · exact hend hlt
  · intro hlt
    exact .inl (wholeSeconds_lt hyear' hlt)

example : formatIso8601 (1708473600 + 14 * 3600 + 30 * 60 + 45) =
    "2024-02-21T14:30:45Z" := by decide

/-- A moment of the wall clock, in nanoseconds since the epoch, that a stamp
with a four-digit year can name. -/
@[ext]
structure Moment where
  nanos : ℕ
  fourDigitYear : nanos / 1000000000 < endOfStamps
  deriving DecidableEq

namespace Moment

theorem nanos_injective : Function.Injective nanos :=
  fun _ _ heq => Moment.ext heq

instance : LinearOrder Moment := LinearOrder.lift' nanos nanos_injective

theorem le_def {first second : Moment} :
    first ≤ second ↔ first.nanos ≤ second.nanos := Iff.rfl

theorem lt_def {first second : Moment} :
    first < second ↔ first.nanos < second.nanos := Iff.rfl

/-- The whole seconds. -/
def epoch (moment : Moment) : ℕ := moment.nanos / 1000000000

def stamp (moment : Moment) : String := formatIso8601 moment.epoch

theorem epoch_mono {first second : Moment} (hle : first ≤ second) :
    first.epoch ≤ second.epoch :=
  Nat.div_le_div_right hle

theorem stamp_lt_iff {first second : Moment} :
    first.stamp < second.stamp ↔ first.epoch < second.epoch :=
  formatIso8601_lt_iff first.fourDigitYear second.fourDigitYear

theorem stamp_le_iff {first second : Moment} :
    first.stamp ≤ second.stamp ↔ first.epoch ≤ second.epoch := by
  rw [← not_lt, stamp_lt_iff, Nat.not_lt]

instance : NeZero 31536000000 := ⟨by decide⟩

/-- The moment that many milliseconds after the start of 2026. -/
def of2026 (millis : Fin 31536000000) : Moment where
  nanos := (1767225600000 + millis.val) * 1000000
  fourDigitYear := by
    rw [endOfStamps]
    omega

end Moment

end Kitaebot.Time
