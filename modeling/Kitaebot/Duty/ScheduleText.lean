import Kitaebot.Core.ByteText
import Kitaebot.Core.MachineInt
import Kitaebot.Core.Text
import Kitaebot.Duty.Scheduler

/-!
# Schedules as they are configured

An interval is a number and a unit.  The text is cut before its last byte, the number
goes through the integer parser of the language, and the product is not checked.
-/

namespace Kitaebot.Scheduler

open MachineInt

/-! ### Parsing -/

/-- Why a schedule is refused. -/
inductive ScheduleError where
  | number
  | unit
  | zero
  | time
  | missing
  | both
  deriving DecidableEq, Repr

/-- The message, with the text as it is quoted for debugging. -/
def ScheduleError.text (quoted : String) : ScheduleError → String
  | .number => "invalid interval " ++ quoted ++ ": expected <number><s|m|h|d>"
  | .unit => "invalid interval unit in " ++ quoted ++ ": expected s|m|h|d"
  | .zero => "interval " ++ quoted ++ " must be positive"
  | .time => "invalid time " ++ quoted ++ ": expected HH:MM (UTC)"
  | .missing => "schedule needs `every` or `daily`"
  | .both => "schedule takes `every` or `daily`, not both"

/-- What a call comes to. -/
inductive Parsed (Value : Type) where
  | ok (value : Value)
  | err (error : ScheduleError)
  | panicked
  deriving DecidableEq, Repr

/-- The seconds of a unit. -/
def unitSeconds : List Char → Option ℕ
  | ['s'] => some 1
  | ['m'] => some 60
  | ['h'] => some 3600
  | ['d'] => some 86400
  | _ => none

/-- The product, unless it is zero. -/
def everyProduct (overflow : Overflow) (product : ℕ) : Parsed ℕ :=
  match unsigned overflow 64 product with
  | none => .panicked
  | some secs => if secs = 0 then .err .zero else .ok secs

/-- A number and a unit. -/
def everyParts (overflow : Overflow) (digits unit : List Char) : Parsed ℕ :=
  match parseUnsigned 64 digits with
  | none => .err .number
  | some n =>
      match unitSeconds unit with
      | none => .err .unit
      | some seconds => everyProduct overflow (n * seconds)

/-- Parse an interval like `"90s"`, `"30m"`, `"1h"`, or `"1d"`. -/
def parseEvery (overflow : Overflow) (s : String) : Parsed ℕ :=
  match ByteText.cut (ByteText.size s.toList - 1) s.toList with
  | none => .panicked
  | some (digits, unit) => everyParts overflow digits unit

/-- Parse a UTC time of day like `"06:00"` into seconds after midnight. -/
def parseDaily (s : String) : Parsed ℕ :=
  match Text.splitOnce ':' s with
  | none => .err .time
  | some (hh, mm) =>
      match parseUnsigned 32 hh.toList, parseUnsigned 32 mm.toList with
      | some hours, some minutes =>
          if hh.utf8ByteSize ≠ 2 ∨ mm.utf8ByteSize ≠ 2 ∨ 23 < hours ∨ 59 < minutes then
            .err .time
          else .ok (hours * 3600 + minutes * 60)
      | _, _ => .err .time

/-- One duty's schedule: exactly one of `every` and `daily`. -/
structure ScheduleConfig where
  every : Option String
  daily : Option String
  deriving DecidableEq, Repr

def ScheduleConfig.parse (overflow : Overflow) (config : ScheduleConfig) :
    Parsed Schedule :=
  match config.every, config.daily with
  | some every, none =>
      match parseEvery overflow every with
      | .ok secs => .ok (.every secs)
      | .err error => .err error
      | .panicked => .panicked
  | none, some daily =>
      match parseDaily daily with
      | .ok secs => .ok (.daily secs)
      | .err error => .err error
      | .panicked => .panicked
  | none, none => .err .missing
  | some _, some _ => .err .both

/-! ### The grammar of intervals -/

/-- A number in decimal. -/
def decimal (digits : List Char) : ℕ := Nat.ofDigitChars 10 digits 0

/-- The text is digits and a unit, and names so many seconds. -/
def Names (s : String) (secs : ℕ) : Prop :=
  ∃ digits unit seconds, s.toList = digits ++ [unit] ∧ IsDecimal digits ∧
    unitSeconds [unit] = some seconds ∧ decimal digits * seconds = secs ∧
      0 < secs ∧ secs < 2 ^ 64

/-- An interval is accepted with its seconds, every other text is refused. -/
structure Exact (overflow : Overflow) (s : String) : Prop where
  accepted : ∀ secs, Names s secs → parseEvery overflow s = .ok secs
  refused : (¬ ∃ secs, Names s secs) → ∃ error, parseEvery overflow s = .err error

/-- Nothing is cut apart, and a number with a unit has no sign and a product that
fits, unless the product comes to nothing. -/
structure Plain (overflow : Overflow) (s : String) : Prop where
  whole : ∀ last ∈ s.toList.getLast?, last.utf8Size = 1
  product : ∀ digits unit seconds,
    s.toList = digits ++ [unit] ∨ s.toList = '+' :: digits ++ [unit] →
    IsDecimal digits → decimal digits < 2 ^ 64 → unitSeconds [unit] = some seconds →
      decimal digits * seconds = 0 ∨
        (s.toList = digits ++ [unit] ∧ decimal digits * seconds < 2 ^ 64) ∨
        overflow = .wraps ∧ 2 ^ 64 ∣ decimal digits * seconds

/-! ### What the parser does -/

section Parse

variable {overflow : Overflow} {s : String}

theorem parseEvery_of_nil (hs : s.toList = []) :
    parseEvery overflow s = .err .number := by
  rw [parseEvery, hs]
  rfl

/-- The text is cut before its last symbol, or inside it. -/
theorem parseEvery_of_append {digits : List Char} {unit : Char}
    (hs : s.toList = digits ++ [unit]) :
    parseEvery overflow s =
      if unit.utf8Size = 1 then everyParts overflow digits [unit] else .panicked := by
  have hpos := unit.utf8Size_pos
  have hsize : ByteText.size (digits ++ [unit]) - 1 =
      ByteText.size digits + (unit.utf8Size - 1) := by
    rw [ByteText.size_append, ByteText.size_cons, ByteText.size_nil]
    omega
  rw [parseEvery, hs, hsize]
  split_ifs with hunit
  · have hcut : ByteText.cut (ByteText.size digits + (unit.utf8Size - 1))
        (digits ++ [unit]) = some (digits, [unit]) :=
      ByteText.cut_eq_some.2 ⟨rfl, by omega⟩
    rw [hcut]
  · have hcut : ByteText.cut (ByteText.size digits + (unit.utf8Size - 1))
        (digits ++ [unit]) = none := by
      rw [Option.eq_none_iff_forall_ne_some]
      rintro ⟨before, after⟩ hcut
      obtain ⟨htext, hbefore⟩ := ByteText.cut_eq_some.1 hcut
      have htotal := congrArg ByteText.size htext
      rw [ByteText.size_append, ByteText.size_append, ByteText.size_cons,
        ByteText.size_nil] at htotal
      rcases List.eq_nil_or_concat after with rfl | ⟨rest, symbol, rfl⟩
      · rw [ByteText.size_nil] at htotal
        omega
      · rw [List.concat_eq_append, ← List.append_assoc] at htext
        obtain ⟨-, hlast⟩ := List.append_inj' htext rfl
        obtain rfl := List.cons.inj hlast |>.1
        rw [List.concat_eq_append, ByteText.size_append, ByteText.size_cons,
          ByteText.size_nil] at htotal
        omega
    rw [hcut]

theorem everyProduct_of_fits {product : ℕ} (hfits : product < 2 ^ 64) :
    everyProduct overflow product =
      if product = 0 then .err .zero else .ok product := by
  have hproduct : unsigned overflow 64 (product : ℤ) = some product :=
    unsigned_eq rfl hfits
  rw [everyProduct.eq_def, hproduct]

/-- A product that does not fit is refused only where it wraps around to zero. -/
theorem everyProduct_err_iff {product : ℕ} (hlarge : 2 ^ 64 ≤ product) :
    (∃ error, everyProduct overflow product = .err error) ↔
      overflow = .wraps ∧ 2 ^ 64 ∣ product := by
  rw [everyProduct.eq_def]
  cases overflow with
  | panics =>
      rw [unsigned_panics_eq_none hlarge]
      refine iff_of_false ?_ fun hwraps => nomatch hwraps.1
      rintro ⟨error, herror⟩
      cases herror
  | wraps =>
      rw [unsigned_wraps, Nat.dvd_iff_mod_eq_zero]
      dsimp only
      split_ifs with hzero
      · exact iff_of_true ⟨_, rfl⟩ ⟨rfl, hzero⟩
      · refine iff_of_false ?_ fun hwraps => hzero hwraps.2
        rintro ⟨error, herror⟩
        cases herror

theorem everyProduct_bounds {product secs : ℕ}
    (hparse : everyProduct overflow product = .ok secs) : 0 < secs ∧ secs < 2 ^ 64 := by
  by_cases hfits : product < 2 ^ 64
  · rw [everyProduct_of_fits hfits] at hparse
    split_ifs at hparse with hzero
    obtain rfl := Parsed.ok.inj hparse
    omega
  · rw [everyProduct.eq_def] at hparse
    cases overflow with
    | panics =>
        rw [unsigned_panics_eq_none (Nat.le_of_not_lt hfits)] at hparse
        cases hparse
    | wraps =>
        rw [unsigned_wraps] at hparse
        dsimp only at hparse
        split_ifs at hparse with hzero
        obtain rfl := Parsed.ok.inj hparse
        exact ⟨Nat.pos_of_ne_zero hzero, Nat.mod_lt _ (by decide)⟩

/-- A number without a unit or a unit without a number is refused. -/
theorem everyParts_err {digits unit : List Char}
    (hparts : ∀ n seconds, parseUnsigned 64 digits = some n →
      unitSeconds unit = some seconds → False) :
    ∃ error, everyParts overflow digits unit = .err error := by
  rw [everyParts.eq_def]
  cases hnumber : parseUnsigned 64 digits with
  | none => exact ⟨_, rfl⟩
  | some n =>
      cases hunit : unitSeconds unit with
      | none => exact ⟨_, rfl⟩
      | some seconds => exact (hparts n seconds hnumber hunit).elim

theorem everyParts_eq {digits unit : List Char} {n seconds : ℕ}
    (hnumber : parseUnsigned 64 digits = some n)
    (hunit : unitSeconds unit = some seconds) :
    everyParts overflow digits unit = everyProduct overflow (n * seconds) := by
  rw [everyParts.eq_def, hnumber, hunit]

theorem unitSeconds_pos {unit : List Char} {seconds : ℕ}
    (hunit : unitSeconds unit = some seconds) : 0 < seconds := by
  rw [unitSeconds.eq_def] at hunit
  split at hunit
  · obtain rfl := Option.some.inj hunit; exact Nat.one_pos
  · obtain rfl := Option.some.inj hunit; exact Nat.succ_pos _
  · obtain rfl := Option.some.inj hunit; exact Nat.succ_pos _
  · obtain rfl := Option.some.inj hunit; exact Nat.succ_pos _
  · cases hunit

/-- A unit is one byte. -/
theorem utf8Size_of_unit {unit : Char} {seconds : ℕ}
    (hunit : unitSeconds [unit] = some seconds) : unit.utf8Size = 1 := by
  rw [unitSeconds.eq_def] at hunit
  split at hunit
  · next heq => obtain rfl := List.cons.inj heq |>.1; rfl
  · next heq => obtain rfl := List.cons.inj heq |>.1; rfl
  · next heq => obtain rfl := List.cons.inj heq |>.1; rfl
  · next heq => obtain rfl := List.cons.inj heq |>.1; rfl
  · cases hunit

/-- The digits and the unit of an interval are the parts it is cut into. -/
theorem names_iff {init : List Char} {last : Char} (hs : s.toList = init ++ [last])
    (secs : ℕ) :
    Names s secs ↔ IsDecimal init ∧ ∃ seconds, unitSeconds [last] = some seconds ∧
      decimal init * seconds = secs ∧ 0 < secs ∧ secs < 2 ^ 64 := by
  constructor
  · rintro ⟨digits, unit, seconds, htext, hdigits, hunit, hproduct⟩
    rw [hs] at htext
    obtain ⟨rfl, hlast⟩ := List.append_inj' htext rfl
    obtain rfl := (List.cons.inj hlast).1
    exact ⟨hdigits, seconds, hunit, hproduct⟩
  · rintro ⟨hdigits, seconds, hunit, hproduct⟩
    exact ⟨init, last, seconds, hs, hdigits, hunit, hproduct⟩

theorem fits_of_product {n seconds : ℕ} (hseconds : 0 < seconds)
    (hfits : n * seconds < 2 ^ 64) : n < 2 ^ 64 :=
  Nat.lt_of_le_of_lt (Nat.le_mul_of_pos_right n hseconds) hfits

/-- A signed or unsigned number with a unit, where the number fits. -/
theorem exact_iff_of_number {init digits : List Char} {last : Char} {seconds : ℕ}
    (hs : s.toList = init ++ [last]) (hinit : init = digits ∨ init = '+' :: digits)
    (hdigits : IsDecimal digits) (hfits : decimal digits < 2 ^ 64)
    (hunit : unitSeconds [last] = some seconds) :
    Exact overflow s ↔ decimal digits * seconds = 0 ∨
      (init = digits ∧ decimal digits * seconds < 2 ^ 64) ∨
      overflow = .wraps ∧ 2 ^ 64 ∣ decimal digits * seconds := by
  have hparse : parseEvery overflow s =
      everyProduct overflow (decimal digits * seconds) := by
    rw [parseEvery_of_append hs, if_pos (utf8Size_of_unit hunit)]
    exact everyParts_eq (parseUnsigned_eq_some.2 ⟨digits, hinit, hdigits, rfl, hfits⟩)
      hunit
  have hnames (secs : ℕ) : Names s secs → init = digits ∧
      decimal digits * seconds = secs ∧ 0 < secs ∧ secs < 2 ^ 64 := by
    rw [names_iff hs]
    rintro ⟨hdecimal, seconds', hunit', hproduct⟩
    obtain rfl := Option.some.inj (hunit.symm.trans hunit')
    have hsame : init = digits := by
      rcases hinit with rfl | rfl
      · rfl
      · exact absurd hdecimal.stripPlus_eq (List.cons_ne_self _ _).symm
    exact ⟨hsame, hsame ▸ hproduct⟩
  by_cases hsmall : decimal digits * seconds < 2 ^ 64
  · have hproduct : parseEvery overflow s =
        if decimal digits * seconds = 0 then .err .zero
        else .ok (decimal digits * seconds) :=
      hparse.trans (everyProduct_of_fits hsmall)
    by_cases hzero : decimal digits * seconds = 0
    · rw [if_pos hzero] at hproduct
      refine iff_of_true ⟨fun secs hsecs => ?_, fun _ => ⟨_, hproduct⟩⟩ (.inl hzero)
      have hpositive := (hnames secs hsecs).2
      omega
    · rw [if_neg hzero] at hproduct
      have hdivides : ¬ 2 ^ 64 ∣ decimal digits * seconds := fun hdvd =>
        Nat.not_lt.2 (Nat.le_of_dvd (Nat.pos_of_ne_zero hzero) hdvd) hsmall
      constructor
      · intro hexact
        refine .inr (.inl ⟨?_, hsmall⟩)
        by_contra hsigned
        obtain ⟨error, herror⟩ := hexact.refused fun ⟨secs, hsecs⟩ =>
          hsigned (hnames secs hsecs).1
        rw [hproduct] at herror
        cases herror
      · rintro (hnone | ⟨hplain, -⟩ | hwraps)
        · exact absurd hnone hzero
        · refine ⟨fun secs hsecs => ?_, fun hnone => ?_⟩
          · rw [hproduct, (hnames secs hsecs).2.1]
          · subst hplain
            have hnamed : Names s (decimal init * seconds) :=
              (names_iff hs _).2 ⟨hdigits, seconds, hunit, rfl,
                Nat.pos_of_ne_zero hzero, hsmall⟩
            exact absurd ⟨_, hnamed⟩ hnone
        · exact absurd hwraps.2 hdivides
  · have hlarge : 2 ^ 64 ≤ decimal digits * seconds := Nat.le_of_not_lt hsmall
    have hnone : ¬ ∃ secs, Names s secs := by
      rintro ⟨secs, hsecs⟩
      have hproduct := (hnames secs hsecs).2
      omega
    have hexact : Exact overflow s ↔ ∃ error, parseEvery overflow s = .err error :=
      ⟨fun hexact => hexact.refused hnone,
        fun herror => ⟨fun secs hsecs => absurd ⟨secs, hsecs⟩ hnone, fun _ => herror⟩⟩
    rw [hexact, hparse, everyProduct_err_iff hlarge]
    constructor
    · exact fun hwraps => .inr (.inr hwraps)
    · rintro (hzero | hplain | hwraps)
      · omega
      · exact absurd hplain.2 hsmall
      · exact hwraps

end Parse

/-- A text is parsed by its grammar exactly when the cut is between symbols and a
number with a unit has no sign and no product that is too large. -/
theorem parseEvery_exact_iff (overflow : Overflow) (s : String) :
    Exact overflow s ↔ Plain overflow s := by
  rcases List.eq_nil_or_concat s.toList with hnil | ⟨init, last, hlast⟩
  · have hnone : ¬ ∃ secs, Names s secs := by
      rintro ⟨secs, digits, unit, seconds, htext, -⟩
      rw [hnil] at htext
      exact List.cons_ne_nil _ _ (List.append_eq_nil_iff.1 htext.symm).2
    refine iff_of_true ⟨fun secs hsecs => absurd ⟨secs, hsecs⟩ hnone,
      fun _ => ⟨_, parseEvery_of_nil hnil⟩⟩ ⟨fun last hmem => ?_, ?_⟩
    · rw [hnil] at hmem
      cases hmem
    · rintro digits unit seconds (htext | htext)
      · rw [hnil] at htext
        exact absurd (List.append_eq_nil_iff.1 htext.symm).2 (List.cons_ne_nil _ _)
      · rw [hnil] at htext
        exact absurd (List.append_eq_nil_iff.1 htext.symm).2 (List.cons_ne_nil _ _)
  · rw [List.concat_eq_append] at hlast
    have hsame {digits : List Char} {unit : Char}
        (htext : s.toList = digits ++ [unit] ∨ s.toList = '+' :: digits ++ [unit]) :
        (init = digits ∨ init = '+' :: digits) ∧ unit = last := by
      rw [hlast] at htext
      rcases htext with htext | htext
      · obtain ⟨hinit, hunit⟩ := List.append_inj' htext rfl
        exact ⟨.inl hinit, (List.cons.inj hunit).1.symm⟩
      · obtain ⟨hinit, hunit⟩ := List.append_inj' htext rfl
        exact ⟨.inr hinit, (List.cons.inj hunit).1.symm⟩
    by_cases hwhole : last.utf8Size = 1
    · have hparse : parseEvery overflow s = everyParts overflow init [last] := by
        rw [parseEvery_of_append hlast, if_pos hwhole]
      have hcut : ∀ symbol ∈ s.toList.getLast?, symbol.utf8Size = 1 := by
        rw [hlast, List.getLast?_concat]
        intro symbol hsymbol
        obtain rfl := Option.some.inj hsymbol
        exact hwhole
      by_cases hnumber : ∃ digits seconds, (init = digits ∨ init = '+' :: digits) ∧
          IsDecimal digits ∧ decimal digits < 2 ^ 64 ∧
          unitSeconds [last] = some seconds
      · obtain ⟨digits, seconds, hinit, hdigits, hfits, hunit⟩ := hnumber
        rw [exact_iff_of_number hlast hinit hdigits hfits hunit]
        have hplain : s.toList = digits ++ [last] ↔ init = digits := by
          rw [hlast, List.append_left_inj]
        constructor
        · intro hproduct
          refine ⟨hcut, ?_⟩
          intro digits' unit' seconds' htext hdigits' _ hunit'
          obtain ⟨hinit', rfl⟩ := hsame htext
          obtain rfl := Option.some.inj (hunit.symm.trans hunit')
          obtain rfl := (stripPlus_eq_of_decimal hinit hdigits).symm.trans
            (stripPlus_eq_of_decimal hinit' hdigits')
          rwa [hplain]
        · intro hmeets
          have htext : s.toList = digits ++ [last] ∨ s.toList = '+' :: digits ++ [last] := by
            rw [hlast]
            rcases hinit with rfl | rfl
            · exact .inl rfl
            · exact .inr rfl
          have hproduct := hmeets.product digits last seconds htext hdigits hfits hunit
          rwa [hplain] at hproduct
      · obtain ⟨error, herror⟩ : ∃ error, everyParts overflow init [last] = .err error := by
          apply everyParts_err
          intro n seconds hn hunit
          obtain ⟨digits, hinit, hdigits, rfl, hfits⟩ := parseUnsigned_eq_some.1 hn
          exact hnumber ⟨digits, seconds, hinit, hdigits, hfits, hunit⟩
        have hnone (secs : ℕ) : ¬ Names s secs := by
          rw [names_iff hlast]
          rintro ⟨hdigits, seconds, hunit, hproduct, -, hsecs⟩
          exact hnumber ⟨init, seconds, .inl rfl, hdigits,
            fits_of_product (unitSeconds_pos hunit) (hproduct ▸ hsecs), hunit⟩
        refine iff_of_true ⟨fun secs hsecs => absurd hsecs (hnone secs),
          fun _ => ⟨error, hparse.trans herror⟩⟩ ⟨hcut, ?_⟩
        intro digits unit seconds htext hdigits hfits hunit
        obtain ⟨hinit, rfl⟩ := hsame htext
        exact absurd ⟨digits, seconds, hinit, hdigits, hfits, hunit⟩ hnumber
    · have hparse : parseEvery overflow s = .panicked := by
        rw [parseEvery_of_append hlast, if_neg hwhole]
      have hnone (secs : ℕ) : ¬ Names s secs := by
        rw [names_iff hlast]
        rintro ⟨-, seconds, hunit, -⟩
        exact hwhole (utf8Size_of_unit hunit)
      refine iff_of_false (fun hexact => ?_) fun hmeets => hwhole ?_
      · obtain ⟨error, herror⟩ := hexact.refused fun ⟨secs, hsecs⟩ => hnone secs hsecs
        rw [hparse] at herror
        cases herror
      · apply hmeets.whole
        rw [hlast, List.getLast?_concat]
        rfl

/-- An accepted interval is positive and fits, however the build multiplies. -/
theorem parseEvery_bounds {overflow : Overflow} {s : String} {secs : ℕ}
    (hparse : parseEvery overflow s = .ok secs) : 0 < secs ∧ secs < 2 ^ 64 := by
  rw [parseEvery.eq_def] at hparse
  split at hparse
  · cases hparse
  · rw [everyParts.eq_def] at hparse
    split at hparse
    · cases hparse
    · split at hparse
      · cases hparse
      · exact everyProduct_bounds hparse

theorem parseDaily_bound {s : String} {secs : ℕ} (hparse : parseDaily s = .ok secs) :
    secs < 86400 := by
  rw [parseDaily.eq_def] at hparse
  split at hparse
  · cases hparse
  · split at hparse
    · split_ifs at hparse with hrange
      obtain rfl := Parsed.ok.inj hparse
      omega
    · cases hparse

/-- The seconds of a schedule are in its range. -/
def Schedule.Valid : Schedule → Prop
  | .every period => 0 < period
  | .daily timeOfDay => timeOfDay < 86400

/-- Every schedule that a configuration names is valid. -/
theorem ScheduleConfig.valid {overflow : Overflow} {config : ScheduleConfig}
    {schedule : Schedule} (hparse : config.parse overflow = .ok schedule) :
    schedule.Valid := by
  rw [ScheduleConfig.parse.eq_def] at hparse
  split at hparse
  · split at hparse
    · next hevery =>
        obtain rfl := Parsed.ok.inj hparse
        exact (parseEvery_bounds hevery).1
    · cases hparse
    · cases hparse
  · split at hparse
    · next hdaily =>
        obtain rfl := Parsed.ok.inj hparse
        exact parseDaily_bound hdaily
    · cases hparse
    · cases hparse
  · cases hparse
  · cases hparse

/-- A signed interval is accepted, and a last symbol of two bytes is cut apart. -/
example : parseEvery .wraps "+5m" = .ok 300 ∧ parseEvery .wraps "5é" = .panicked := by
  decide

end Kitaebot.Scheduler
