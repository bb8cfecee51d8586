import Mathlib.Data.List.Basic
import Mathlib.Data.String.Basic

/-!
# Fixed-width decimal texts

Numbers padded with zeros to a common width compare as texts the way they
compare as numbers, and a text of several such fields compares field by field.
-/

namespace Kitaebot.FixedWidth

/-- The decimal digits, with zeros in front up to the width. -/
def digits (width value : ℕ) : List Char :=
  (Nat.toDigits 10 value).leftpad width '0'

theorem digits_one {value : ℕ} (hvalue : value < 10) :
    digits 1 value = [value.digitChar] := by
  rw [digits, Nat.toDigits_of_lt_base hvalue]
  rfl

theorem digits_succ (width value : ℕ) (hwidth : 0 < width) :
    digits (width + 1) value =
      digits width (value / 10) ++ [(value % 10).digitChar] := by
  by_cases hsmall : value < 10
  · rw [digits, digits, Nat.toDigits_of_lt_base hsmall,
      Nat.div_eq_of_lt hsmall, Nat.mod_eq_of_lt hsmall, Nat.toDigits_zero]
    obtain ⟨width, rfl⟩ : ∃ rest, width = rest + 1 := ⟨width - 1, by omega⟩
    simp [List.leftpad, List.replicate_succ', List.append_assoc]
  · have hmore : Nat.toDigits 10 value =
        Nat.toDigits 10 (value / 10) ++ [(value % 10).digitChar] :=
      Nat.toDigits_of_base_le (by omega) (by omega)
    simp [digits, hmore, List.leftpad]

theorem length_digits {width value : ℕ} (hvalue : value < 10 ^ width)
    (hwidth : 0 < width) : (digits width value).length = width := by
  have hlength := (Nat.length_toDigits_le_iff (by omega) hwidth).2 hvalue
  simp [digits, List.leftpad]
  omega

theorem digitChar_lt {first second : ℕ} (hsecond : second < 10)
    (hlt : first < second) : first.digitChar < second.digitChar := by
  have hall : ∀ big < 10, ∀ small < big,
      small.digitChar < big.digitChar := by decide
  exact hall second hsecond first hlt

/-- A difference decides before anything that follows. -/
theorem append_lt_append {first second : List Char} (rest rest' : List Char)
    (hlength : first.length = second.length) (hlt : first < second) :
    first ++ rest < second ++ rest' := by
  induction first generalizing second with
  | nil =>
      rw [List.length_nil, eq_comm, List.length_eq_zero_iff] at hlength
      exact absurd (hlength ▸ hlt) (List.not_lt_nil [])
  | cons char first ih =>
      cases second with
      | nil => cases hlength
      | cons char' second =>
          rw [List.cons_append, List.cons_append]
          rw [List.cons_lt_cons_iff] at hlt ⊢
          exact hlt.imp_right fun ⟨heq, hlt⟩ =>
            ⟨heq, ih (Nat.succ.inj hlength) hlt⟩

theorem append_left_lt (shared : List Char) {rest rest' : List Char}
    (hlt : rest < rest') : shared ++ rest < shared ++ rest' := by
  induction shared with
  | nil => exact hlt
  | cons char shared ih => exact List.cons_lt_cons_iff.2 (.inr ⟨rfl, ih⟩)

theorem append_lt_append_iff {first second : List Char} (rest rest' : List Char)
    (hlength : first.length = second.length) :
    first ++ rest < second ++ rest' ↔
      first < second ∨ first = second ∧ rest < rest' := by
  constructor
  · intro hlt
    rcases lt_trichotomy first second with hbefore | rfl | hafter
    · exact .inl hbefore
    · refine .inr ⟨rfl, ?_⟩
      by_contra hnot
      rcases lt_or_eq_of_le (not_lt.1 hnot) with hbad | rfl
      · exact lt_asymm hlt (append_left_lt first hbad)
      · exact lt_irrefl _ hlt
    · exact absurd hlt (lt_asymm (append_lt_append rest' rest hlength.symm hafter))
  · rintro (hlt | ⟨rfl, hlt⟩)
    · exact append_lt_append rest rest' hlength hlt
    · exact append_left_lt first hlt

theorem digits_lt {width first second : ℕ} (hwidth : 0 < width)
    (hsecond : second < 10 ^ width) (hlt : first < second) :
    digits width first < digits width second := by
  induction width, hwidth using Nat.le_induction generalizing first second with
  | base =>
      rw [digits_one (by omega), digits_one (by omega)]
      exact List.cons_lt_cons_iff.2 (.inl (digitChar_lt (by omega) hlt))
  | succ width hwidth ih =>
      have hdiv : second / 10 < 10 ^ width := by
        rw [Nat.pow_succ] at hsecond
        omega
      rw [digits_succ width first hwidth, digits_succ width second hwidth]
      by_cases hhigh : first / 10 < second / 10
      · refine append_lt_append _ _ ?_ (ih hdiv hhigh)
        rw [length_digits hdiv hwidth, length_digits (by omega) hwidth]
      · have hsame : first / 10 = second / 10 := by omega
        rw [hsame]
        exact append_left_lt _ (List.cons_lt_cons_iff.2
          (.inl (digitChar_lt (by omega) (by omega))))

/-- A field in front of two texts: it decides, or it is shared and the texts
decide. -/
theorem field_lt {width first second : ℕ} {rest rest' : List Char}
    (hwidth : 0 < width) (hsecond : second < 10 ^ width)
    (hlt : first < second ∨ first = second ∧ rest < rest') :
    digits width first ++ rest < digits width second ++ rest' := by
  rcases hlt with hlt | ⟨rfl, hlt⟩
  · refine append_lt_append _ _ ?_ (digits_lt hwidth hsecond hlt)
    rw [length_digits hsecond hwidth, length_digits (by omega) hwidth]
  · exact append_left_lt _ hlt

end Kitaebot.FixedWidth
