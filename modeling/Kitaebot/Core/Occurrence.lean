import Mathlib.Data.List.Basic

/-!
# Contiguous occurrences

The windows of a list, the last position that passes a test, and what the search
of a part among the windows finds.
-/

namespace Kitaebot.Occurrence

variable {Item : Type}

/-- Every contiguous run of a length, from left to right. -/
def windows (size : ℕ) (items : List Item) : List (List Item) :=
  (List.range (items.length + 1 - size)).map fun start => (items.drop start).take size

/-- The last position that passes the test. -/
def rposition (test : Item → Bool) : List Item → Option ℕ
  | [] => none
  | item :: items =>
      match rposition test items with
      | some position => some (position + 1)
      | none => if test item then some 0 else none

/-- The part is contiguous in the list and ends at the index. -/
def EndsAt (items part : List Item) (stop : ℕ) : Prop :=
  ∃ before after, items = before ++ part ++ after ∧ stop = before.length + part.length

/-- The index is the end of the last occurrence. -/
def LastEnd (items part : List Item) (stop : ℕ) : Prop :=
  EndsAt items part stop ∧ ∀ other, EndsAt items part other → other ≤ stop

theorem rposition_eq_none_iff {test : Item → Bool} {items : List Item} :
    rposition test items = none ↔ ∀ item ∈ items, test item = false := by
  induction items with
  | nil => simp [rposition]
  | cons item items ih =>
      rw [rposition, List.forall_mem_cons, ← ih]
      cases rposition test items with
      | some position => simp
      | none => simp

/-- A position found passes the test, and none after it does. -/
theorem rposition_eq_some_iff {test : Item → Bool} {items : List Item} {position : ℕ} :
    rposition test items = some position ↔
      (∃ item, items[position]? = some item ∧ test item = true) ∧
        ∀ later item, items[later]? = some item → test item = true →
          later ≤ position := by
  induction items generalizing position with
  | nil => simp [rposition]
  | cons item items ih =>
      rw [rposition]
      cases hrest : rposition test items with
      | some found =>
          obtain ⟨⟨other, hother, htest⟩, hlast⟩ := ih.1 hrest
          constructor
          · intro hfound
            cases hfound
            refine ⟨⟨other, by simpa using hother, htest⟩, ?_⟩
            intro later value hvalue hpasses
            cases later with
            | zero => omega
            | succ later =>
                have hle := hlast later value (by simpa using hvalue) hpasses
                omega
          · rintro ⟨⟨value, hvalue, hpasses⟩, hmost⟩
            have hreached := hmost (found + 1) other (by simpa using hother) htest
            cases position with
            | zero => omega
            | succ position =>
                have hle := hlast position value (by simpa using hvalue) hpasses
                have heq : found = position := by omega
                rw [heq]
      | none =>
          have hnone := rposition_eq_none_iff.1 hrest
          by_cases htest : test item = true
          · simp only [htest, if_true, Option.some.injEq]
            constructor
            · rintro rfl
              refine ⟨⟨item, rfl, htest⟩, ?_⟩
              intro later value hvalue hpasses
              cases later with
              | zero => exact Nat.le_refl 0
              | succ later =>
                  have hmem : value ∈ items :=
                    List.mem_of_getElem? (by simpa using hvalue)
                  rw [hnone value hmem] at hpasses
                  cases hpasses
            · rintro ⟨⟨value, hvalue, hpasses⟩, -⟩
              cases position with
              | zero => rfl
              | succ position =>
                  have hmem : value ∈ items :=
                    List.mem_of_getElem? (by simpa using hvalue)
                  rw [hnone value hmem] at hpasses
                  cases hpasses
          · simp only [htest, if_false, Bool.false_eq_true]
            constructor
            · intro hfound
              cases hfound
            · rintro ⟨⟨value, hvalue, hpasses⟩, -⟩
              cases position with
              | zero =>
                  cases hvalue
                  exact absurd hpasses htest
              | succ position =>
                  have hmem : value ∈ items :=
                    List.mem_of_getElem? (by simpa using hvalue)
                  rw [hnone value hmem] at hpasses
                  cases hpasses

theorem endsAt_iff {items part : List Item} {start : ℕ} :
    EndsAt items part (start + part.length) ↔
      start + part.length ≤ items.length ∧
        (items.drop start).take part.length = part := by
  constructor
  · rintro ⟨before, after, rfl, hstop⟩
    have hstart : start = before.length := by omega
    subst hstart
    simp [List.append_assoc]
  · rintro ⟨hlength, hpart⟩
    refine ⟨items.take start, items.drop (start + part.length), ?_, ?_⟩
    · calc
        items = items.take start ++ items.drop start := (List.take_append_drop ..).symm
        _ = items.take start ++ ((items.drop start).take part.length ++
              (items.drop start).drop part.length) := by
              rw [List.take_append_drop part.length, List.take_append_drop start]
        _ = items.take start ++ part ++ items.drop (start + part.length) := by
              rw [hpart, List.drop_drop, List.append_assoc]
    · rw [List.length_take, Nat.min_eq_left (by omega)]

theorem EndsAt.exists_start {items part : List Item} {stop : ℕ}
    (hends : EndsAt items part stop) : ∃ start, stop = start + part.length := by
  obtain ⟨before, -, -, hstop⟩ := hends
  exact ⟨before.length, hstop⟩

theorem getElem?_windows {size start : ℕ} {items window : List Item} :
    (windows size items)[start]? = some window ↔
      start + size ≤ items.length ∧ (items.drop start).take size = window := by
  rw [windows, List.getElem?_map, Option.map_eq_some_iff]
  constructor
  · rintro ⟨index, hindex, rfl⟩
    obtain ⟨hlt, rfl⟩ := List.getElem?_eq_some_iff.1 hindex
    rw [List.length_range] at hlt
    rw [List.getElem_range]
    constructor
    · omega
    · rfl
  · rintro ⟨hle, hwindow⟩
    refine ⟨start, ?_, hwindow⟩
    rw [List.getElem?_range]
    omega

variable [DecidableEq Item] {items part : List Item}

theorem rposition_windows_eq_some_iff {start : ℕ} :
    rposition (· == part) (windows part.length items) = some start ↔
      LastEnd items part (start + part.length) := by
  have hfound : ∀ position, (∃ window,
      (windows part.length items)[position]? = some window ∧ (window == part) = true) ↔
        EndsAt items part (position + part.length) := by
    intro position
    rw [endsAt_iff]
    constructor
    · rintro ⟨window, hwindow, hequal⟩
      obtain ⟨hle, htake⟩ := getElem?_windows.1 hwindow
      exact ⟨hle, htake.trans (beq_iff_eq.1 hequal)⟩
    · rintro ⟨hle, htake⟩
      exact ⟨part, getElem?_windows.2 ⟨hle, htake⟩, beq_iff_eq.2 rfl⟩
  rw [rposition_eq_some_iff, hfound, LastEnd]
  apply and_congr_right
  intro _
  constructor
  · intro hlast stop hends
    obtain ⟨position, rfl⟩ := hends.exists_start
    obtain ⟨window, hwindow, hequal⟩ := (hfound position).2 hends
    have hle := hlast position window hwindow hequal
    omega
  · intro hlast position window hwindow hequal
    have hle := hlast _ ((hfound position).1 ⟨window, hwindow, hequal⟩)
    omega

theorem rposition_windows_eq_none_iff :
    rposition (· == part) (windows part.length items) = none ↔
      ∀ stop, ¬ EndsAt items part stop := by
  rw [rposition_eq_none_iff]
  constructor
  · intro hnone stop hends
    obtain ⟨start, rfl⟩ := hends.exists_start
    obtain ⟨hle, htake⟩ := endsAt_iff.1 hends
    have hmem : part ∈ windows part.length items :=
      List.mem_of_getElem? (getElem?_windows.2 ⟨hle, htake⟩)
    simpa using hnone part hmem
  · intro hnone window hmem
    obtain ⟨start, hwindow⟩ := List.getElem?_of_mem hmem
    obtain ⟨hle, htake⟩ := getElem?_windows.1 hwindow
    rw [beq_eq_false_iff_ne]
    rintro rfl
    exact hnone _ (endsAt_iff.2 ⟨hle, htake⟩)

end Kitaebot.Occurrence
