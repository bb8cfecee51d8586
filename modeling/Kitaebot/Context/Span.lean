import Kitaebot.Core.Paging

/-!
# Clamped spans

The longest beginning of a history within a token budget, one row at least.
-/

namespace Kitaebot.Context

variable {Row : Type} (tokens : Row → ℕ) (maxTokens : ℕ)

/-- Take rows while they fit; the first one is taken whatever its size. -/
def takeSpan : ℕ → Bool → List Row → List Row
  | _, _, [] => []
  | total, kept, row :: rows =>
      if kept ∧ maxTokens < total + tokens row then []
      else row :: takeSpan (total + tokens row) true rows

attribute [local simp] takeSpan

/-- A history from its first row, clamped. -/
def clampSpan (rows : List Row) : List Row := takeSpan tokens maxTokens 0 false rows

def tokensOf (rows : List Row) : ℕ := (rows.map tokens).sum

theorem takeSpan_initial (total : ℕ) (kept : Bool) (rows : List Row) :
    takeSpan tokens maxTokens total kept rows <+: rows := by
  induction rows generalizing total kept with
  | nil => exact List.prefix_rfl
  | cons row rows ih =>
      rw [takeSpan]
      split
      · exact List.nil_prefix
      · exact (List.prefix_cons_inj row).2 (ih _ _)

theorem clampSpan_prefix (rows : List Row) : clampSpan tokens maxTokens rows <+: rows :=
  takeSpan_initial tokens maxTokens 0 false rows

/-- What was kept before and the rows taken after it fit together. -/
theorem tokensOf_takeSpan {total : ℕ} (htotal : total ≤ maxTokens) (rows : List Row) :
    total + tokensOf tokens (takeSpan tokens maxTokens total true rows) ≤ maxTokens := by
  induction rows generalizing total with
  | nil => exact htotal
  | cons row rows ih =>
      rw [takeSpan]
      split_ifs with hover
      · exact htotal
      · have hfit : total + tokens row ≤ maxTokens :=
          Nat.le_of_not_lt fun hlt => hover ⟨rfl, hlt⟩
        have hrest := ih hfit
        rw [tokensOf, List.map_cons, List.sum_cons]
        rw [tokensOf] at hrest
        omega

/-- A first row over the budget stands alone. -/
theorem takeSpan_over {total : ℕ} (htotal : maxTokens < total) (rows : List Row) :
    takeSpan tokens maxTokens total true rows = [] := by
  cases rows with
  | nil => rfl
  | cons row rows => exact if_pos ⟨rfl, Nat.lt_of_lt_of_le htotal (Nat.le_add_right _ _)⟩

/-- The span fits the budget, or it is its first row alone. -/
theorem clampSpan_fits (row : Row) (rows : List Row) :
    tokensOf tokens (clampSpan tokens maxTokens (row :: rows)) ≤ maxTokens ∨
      clampSpan tokens maxTokens (row :: rows) = [row] := by
  have hspan : clampSpan tokens maxTokens (row :: rows) =
      row :: takeSpan tokens maxTokens (tokens row) true rows := by
    rw [clampSpan, takeSpan, if_neg (fun hkept => Bool.noConfusion hkept.1), Nat.zero_add]
  rw [hspan]
  rcases Nat.lt_or_ge maxTokens (tokens row) with hover | hfit
  · right
    rw [takeSpan_over tokens maxTokens hover]
  · left
    have hrest := tokensOf_takeSpan tokens maxTokens hfit rows
    rw [tokensOf, List.map_cons, List.sum_cons]
    exact hrest

/-- Something pending gives something to fold. -/
theorem clampSpan_ne_nil {rows : List Row} (hrows : rows ≠ []) :
    clampSpan tokens maxTokens rows ≠ [] := by
  cases rows with
  | nil => exact absurd rfl hrows
  | cons row rows =>
      rw [clampSpan, takeSpan, if_neg (fun hkept => Bool.noConfusion hkept.1)]
      exact List.cons_ne_nil _ _

/-- A history within the budget is taken whole. -/
theorem takeSpan_all {total : ℕ} (kept : Bool) {rows : List Row}
    (hrows : total + tokensOf tokens rows ≤ maxTokens) :
    takeSpan tokens maxTokens total kept rows = rows := by
  induction rows generalizing total kept with
  | nil => rfl
  | cons row rows ih =>
      rw [tokensOf, List.map_cons, List.sum_cons] at hrows
      rw [takeSpan, if_neg, ih]
      · rw [tokensOf]
        omega
      · rintro ⟨_, hover⟩
        omega

/-- How many rows are taken depends on their tokens only. -/
theorem takeSpan_eq_take (total : ℕ) (kept : Bool) (rows : List Row) :
    takeSpan tokens maxTokens total kept rows =
      rows.take (takeSpan id maxTokens total kept (rows.map tokens)).length := by
  induction rows generalizing total kept with
  | nil => rfl
  | cons row rows ih =>
      rw [takeSpan, List.map_cons, takeSpan]
      change (if kept ∧ maxTokens < total + tokens row then [] else _) =
        List.take (if kept ∧ maxTokens < total + tokens row then [] else _).length _
      split_ifs
      · rfl
      · rw [List.length_cons, List.take_succ_cons, ih]
        rfl

/-- No longer beginning fits beside what was kept before. -/
theorem takeSpan_longest {total : ℕ} (htotal : total ≤ maxTokens) {rows other : List Row}
    (hother : other <+: rows) (hfits : total + tokensOf tokens other ≤ maxTokens) :
    other.length ≤ (takeSpan tokens maxTokens total true rows).length := by
  induction rows generalizing total other with
  | nil =>
      rw [List.prefix_nil.1 hother]
      exact Nat.zero_le _
  | cons row rows ih =>
      cases other with
      | nil => exact Nat.zero_le _
      | cons first other =>
          obtain ⟨rfl, hrest⟩ := List.cons_prefix_cons.1 hother
          rw [tokensOf, List.map_cons, List.sum_cons, ← Nat.add_assoc] at hfits
          have hfirst : total + tokens first ≤ maxTokens :=
            (Nat.le_add_right _ _).trans hfits
          rw [takeSpan, if_neg (fun hover => Nat.not_lt.2 hfirst hover.2), List.length_cons,
            List.length_cons]
          exact Nat.add_le_add_right (ih hfirst hrest hfits) 1

/-- A clamped history is a page of it. -/
theorem isPage_clampSpan (rows : List Row) :
    Paging.IsPage tokens maxTokens rows (clampSpan tokens maxTokens rows) := by
  cases rows with
  | nil => rfl
  | cons row rows =>
      have hspan : clampSpan tokens maxTokens (row :: rows) =
          row :: takeSpan tokens maxTokens (tokens row) true rows := by
        rw [clampSpan, takeSpan, if_neg (fun hkept => Bool.noConfusion hkept.1), Nat.zero_add]
      rw [Paging.IsPage, hspan]
      split_ifs with hover
      · rw [takeSpan_over tokens maxTokens hover]
      · have hfirst : tokens row ≤ maxTokens := Nat.le_of_not_lt hover
        constructor
        · exact (List.prefix_cons_inj row).2 (takeSpan_initial _ _ _ _ _)
        · rw [List.map_cons, List.sum_cons]
          exact tokensOf_takeSpan tokens maxTokens hfirst rows
        · intro other hother hfits
          cases other with
          | nil => exact Nat.zero_le _
          | cons first other =>
              obtain ⟨rfl, hrest⟩ := List.cons_prefix_cons.1 hother
              rw [List.map_cons, List.sum_cons] at hfits
              rw [List.length_cons, List.length_cons]
              exact Nat.add_le_add_right
                (takeSpan_longest tokens maxTokens hfirst hrest hfits) 1

end Kitaebot.Context
