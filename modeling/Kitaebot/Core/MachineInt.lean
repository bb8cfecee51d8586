import Mathlib.Algebra.Order.Ring.Int
import Mathlib.Data.Nat.Notation
import Mathlib.Tactic.NormNum

/-!
# Machine integers

The results of arithmetic on integers of a fixed width.  A build either stops at a
result that does not fit or wraps it around.
-/

namespace Kitaebot.MachineInt

/-- What a build does with a result that does not fit. -/
inductive Overflow where
  | panics
  | wraps
  deriving DecidableEq, Repr

/-- An unsigned result; none where the build stops. -/
def unsigned (overflow : Overflow) (width : ℕ) (value : ℤ) : Option ℕ :=
  if 0 ≤ value ∧ value.toNat < 2 ^ width then some value.toNat
  else match overflow with
    | .panics => none
    | .wraps => some (value % 2 ^ width).toNat

/-- A signed result; none where the build stops. -/
def signed (overflow : Overflow) (width : ℕ) (value : ℤ) : Option ℤ :=
  if -2 ^ (width - 1) ≤ value ∧ value < 2 ^ (width - 1) then some value
  else match overflow with
    | .panics => none
    | .wraps => some (value.bmod (2 ^ width))

variable {overflow : Overflow} {width : ℕ}

theorem unsigned_eq {value : ℤ} {result : ℕ} (hvalue : value = result)
    (hfits : result < 2 ^ width) : unsigned overflow width value = some result := by
  rw [hvalue]
  exact if_pos ⟨Int.natCast_nonneg result, hfits⟩

theorem unsigned_panics_eq_none {value : ℕ} (hlarge : 2 ^ width ≤ value) :
    unsigned .panics width value = none :=
  if_neg fun hfits => Nat.not_lt.2 hlarge hfits.2

theorem unsigned_wraps (value : ℕ) :
    unsigned .wraps width value = some (value % 2 ^ width) := by
  by_cases hfits : value < 2 ^ width
  · rw [unsigned_eq rfl hfits, Nat.mod_eq_of_lt hfits]
  · rw [unsigned, if_neg fun hvalue => hfits hvalue.2]
    exact congrArg some (Int.toNat_natCast _)

theorem signed_eq {value : ℤ} {result : ℕ} (hvalue : value = result)
    (hfits : result < 2 ^ (width - 1)) :
    signed overflow width value = some (result : ℤ) := by
  have hbound : (result : ℤ) < 2 ^ (width - 1) := by exact_mod_cast hfits
  have hlow : -2 ^ (width - 1) ≤ (result : ℤ) := by
    have hpos : (0 : ℤ) < 2 ^ (width - 1) := by positivity
    omega
  rw [hvalue]
  exact if_pos ⟨hlow, hbound⟩

/-- A computation goes on with the result of its first step. -/
theorem bind_of_eq {Value Result : Type} {value : Option Value} {first : Value}
    (hvalue : value = some first) (rest : Value → Option Result) :
    value >>= rest = rest first := by
  rw [hvalue]
  rfl

/-! ### Decimal texts -/

/-- A decimal text without a sign. -/
def IsDecimal (digits : List Char) : Prop :=
  digits ≠ [] ∧ ∀ digit ∈ digits, digit.isDigit = true

instance (digits : List Char) : Decidable (IsDecimal digits) :=
  @instDecidableAnd _ _ inferInstance (List.decidableBAll _ digits)

/-- A leading plus sign is not part of a number. -/
def stripPlus : List Char → List Char
  | '+' :: digits => digits
  | digits => digits

/-- An unsigned number in decimal, with an optional plus sign. -/
def parseUnsigned (width : ℕ) (text : List Char) : Option ℕ :=
  let digits := stripPlus text
  if IsDecimal digits ∧ Nat.ofDigitChars 10 digits 0 < 2 ^ width then
    some (Nat.ofDigitChars 10 digits 0)
  else none

theorem stripPlus_cases (text : List Char) :
    text = stripPlus text ∨ text = '+' :: stripPlus text := by
  rw [stripPlus.eq_def]
  split
  · exact .inr rfl
  · exact .inl rfl

theorem IsDecimal.stripPlus_eq {digits : List Char} (hdigits : IsDecimal digits) :
    stripPlus digits = digits := by
  rw [stripPlus.eq_def]
  split
  · next rest =>
      have hplus := hdigits.2 '+' List.mem_cons_self
      cases hplus
  · rfl

theorem stripPlus_eq_of_decimal {text digits : List Char}
    (htext : text = digits ∨ text = '+' :: digits) (hdigits : IsDecimal digits) :
    stripPlus text = digits := by
  rcases htext with rfl | rfl
  · exact hdigits.stripPlus_eq
  · rfl

/-- The accepted texts are the decimal ones, with a plus sign or without. -/
theorem parseUnsigned_eq_some {text : List Char} {value : ℕ} :
    parseUnsigned width text = some value ↔
      ∃ digits, (text = digits ∨ text = '+' :: digits) ∧ IsDecimal digits ∧
        Nat.ofDigitChars 10 digits 0 = value ∧ value < 2 ^ width := by
  constructor
  · intro hparse
    obtain ⟨⟨hdigits, hfits⟩, hvalue⟩ := Option.ite_none_right_eq_some.1 hparse
    obtain rfl := Option.some.inj hvalue
    exact ⟨stripPlus text, stripPlus_cases text, hdigits, rfl, hfits⟩
  · rintro ⟨digits, rfl | rfl, hdigits, rfl, hfits⟩
    · rw [parseUnsigned, hdigits.stripPlus_eq]
      exact if_pos ⟨hdigits, hfits⟩
    · exact if_pos ⟨hdigits, hfits⟩

end Kitaebot.MachineInt
