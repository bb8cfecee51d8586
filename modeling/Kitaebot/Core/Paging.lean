import Mathlib.Algebra.GroupWithZero.Nat
import Mathlib.Algebra.Order.BigOperators.Group.List

/-!
# Paging through a list

A page is the longest beginning of what is left that fits a limit, or its first item
where that alone is over the limit.  A reader that asks for page after page, each
from where the last one ended, sees every item once.
-/

namespace Kitaebot.Paging

variable {Item Failure : Type*}

/-- The longest beginning whose cost is within the limit. -/
structure IsLongest (cost : Item → ℕ) (limit : ℕ) (pending page : List Item) : Prop where
  isPrefix : page <+: pending
  fits : (page.map cost).sum ≤ limit
  longest : ∀ other, other <+: pending → (other.map cost).sum ≤ limit →
    other.length ≤ page.length

/-- A page of what is pending. -/
def IsPage (cost : Item → ℕ) (limit : ℕ) : List Item → List Item → Prop
  | [], page => page = []
  | head :: rest, page =>
      if limit < cost head then page = [head]
      else IsLongest cost limit (head :: rest) page

/-- The items that a reader sees with one call for each limit, each call from where
the page before it ended. -/
def visits (fetch : ℕ → ℕ → Except Failure (List Item)) :
    List ℕ → ℕ → Except Failure (List Item)
  | [], _ => .ok []
  | limit :: limits, position => do
      let page ← fetch position limit
      let rest ← visits fetch limits (position + page.length)
      .ok (page ++ rest)

section Pages

variable {cost : Item → ℕ} {limit : ℕ} {pending page : List Item}

theorem IsPage.isPrefix (hpage : IsPage cost limit pending page) : page <+: pending := by
  cases pending with
  | nil =>
      have hnil : page = [] := hpage
      exact hnil ▸ List.nil_prefix
  | cons head rest =>
      rw [IsPage] at hpage
      split at hpage
      · rw [hpage]
        exact ⟨rest, rfl⟩
      · exact hpage.isPrefix

/-- A page is empty exactly when nothing is pending. -/
theorem IsPage.eq_nil_iff (hpage : IsPage cost limit pending page) :
    page = [] ↔ pending = [] := by
  cases pending with
  | nil => exact iff_of_true hpage rfl
  | cons head rest =>
      rw [IsPage] at hpage
      apply iff_of_false _ (List.cons_ne_nil head rest)
      split at hpage
      · rw [hpage]
        exact List.cons_ne_nil head []
      · next hfits =>
        intro hnil
        have hone := hpage.longest [head] ⟨rest, rfl⟩ (by
          rw [List.map_singleton, List.sum_singleton]
          exact Nat.le_of_not_lt hfits)
        rw [hnil] at hone
        exact absurd hone (by simp)

/-- Two pages of the same items under the same limit are equal. -/
theorem IsPage.unique {other : List Item} (hpage : IsPage cost limit pending page)
    (hother : IsPage cost limit pending other) : page = other := by
  cases pending with
  | nil => rw [show page = [] from hpage, show other = [] from hother]
  | cons head rest =>
      rw [IsPage] at hpage hother
      split at hpage
      · next hover =>
        rw [if_pos hover] at hother
        rw [hpage, hother]
      · next hfits =>
        rw [if_neg hfits] at hother
        have hlength := le_antisymm
          (hother.longest page hpage.isPrefix hpage.fits)
          (hpage.longest other hother.isPrefix hother.fits)
        exact (List.prefix_of_prefix_length_le hpage.isPrefix hother.isPrefix
          hlength.le).eq_of_length hlength

end Pages

section Visits

variable {cost : Item → ℕ} {items : List Item}
  {fetch : ℕ → ℕ → Except Failure (List Item)}

/-- What is seen from a position on is a beginning of what is there, and with enough
calls all of it. -/
theorem visits_spec (hfetch : ∀ position limit, ∃ page,
      fetch position limit = .ok page ∧ IsPage cost limit (items.drop position) page)
    (limits : List ℕ) (position : ℕ) :
    ∃ seen, visits fetch limits position = .ok seen ∧ seen <+: items.drop position ∧
      (items.length ≤ position + limits.length → seen = items.drop position) := by
  induction limits generalizing position with
  | nil =>
      refine ⟨[], rfl, List.nil_prefix, fun hcalls => ?_⟩
      exact (List.drop_eq_nil_of_le hcalls).symm
  | cons limit limits ih =>
      obtain ⟨page, hpage, hisPage⟩ := hfetch position limit
      obtain ⟨rest, hrest⟩ := hisPage.isPrefix
      have hdrop : items.drop (position + page.length) = rest := by
        rw [← List.drop_drop, ← hrest, List.drop_left]
      obtain ⟨seen, hseen, hprefix, hall⟩ := ih (position + page.length)
      rw [hdrop] at hprefix hall
      refine ⟨page ++ seen, ?_, ?_, fun hcalls => ?_⟩
      · simp only [visits, hpage, hseen, bind, Except.bind]
      · rw [← hrest]
        exact (List.prefix_append_right_inj page).2 hprefix
      · have hnext : items.length ≤ position + page.length + limits.length := by
          by_cases hempty : page = []
          · have hdone := List.drop_eq_nil_iff.1 (hisPage.eq_nil_iff.1 hempty)
            omega
          · have hsome := List.length_pos_iff.2 hempty
            rw [List.length_cons] at hcalls
            omega
        rw [hall hnext, hrest]

end Visits

end Kitaebot.Paging
