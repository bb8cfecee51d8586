import Mathlib.Data.Finset.Card
import Mathlib.Data.List.Rotate
import Mathlib.Data.List.TakeWhile
import Mathlib.Order.Basic

/-!
# Round robin over names

Names are served in their order, starting after the last one served and wrapping
around.  Who stands between the last one served and a name only gets fewer until that
name is served, also when names join.
-/

namespace Kitaebot.RoundRobin

variable {Name : Type} [LinearOrder Name]

/-- The names, from the first one after the last served. -/
def order (names : List Name) : Option Name → List Name
  | none => names
  | some last => names.rotate (names.takeWhile fun name => decide (name ≤ last)).length

/-- The other name comes up before the waiting one does. -/
def Ahead (waiting other : Name) : Option Name → Prop
  | none => other < waiting
  | some last =>
      if last < waiting then last < other ∧ other < waiting
      else last < other ∨ other < waiting

instance (waiting other : Name) (last : Option Name) :
    Decidable (Ahead waiting other last) := by
  cases last with
  | none => exact inferInstanceAs (Decidable (other < waiting))
  | some last =>
      exact inferInstanceAs (Decidable
        (if last < waiting then last < other ∧ other < waiting
          else last < other ∨ other < waiting))

section Order

variable {names : List Name} {last : Option Name} {waiting other : Name}

theorem mem_order : other ∈ order names last ↔ other ∈ names := by
  cases last with
  | none => rfl
  | some last => exact List.mem_rotate

theorem nodup_order (hnames : names.Nodup) : (order names last).Nodup := by
  cases last with
  | none => exact hnames
  | some last => exact List.nodup_rotate.2 hnames

/-- The names after the last served, then the names up to it. -/
theorem order_some (names : List Name) (last : Name) :
    order names (some last) =
      names.dropWhile (fun name => decide (name ≤ last)) ++
        names.takeWhile fun name => decide (name ≤ last) := by
  have hrotate := List.rotate_append_length_eq
    (names.takeWhile fun name => decide (name ≤ last))
    (names.dropWhile fun name => decide (name ≤ last))
  rw [List.takeWhile_append_dropWhile] at hrotate
  exact hrotate

theorem lt_of_mem_dropWhile {bound : Name} (hnames : names.Pairwise (· < ·))
    (hother : other ∈ names.dropWhile fun name => decide (name ≤ bound)) :
    bound < other := by
  induction names with
  | nil => cases hother
  | cons name names ih =>
      obtain ⟨hfirst, hrest⟩ := List.pairwise_cons.1 hnames
      by_cases hname : name ≤ bound
      · rw [List.dropWhile_cons, if_pos (decide_eq_true hname)] at hother
        exact ih hrest hother
      · rw [List.dropWhile_cons, if_neg (by simpa using hname)] at hother
        have hlt : bound < name := not_le.1 hname
        rcases List.mem_cons.1 hother with rfl | hlater
        · exact hlt
        · exact lt_trans hlt (hfirst other hlater)

/-- Who is listed earlier is ahead. -/
theorem pairwise_order (hnames : names.Pairwise (· < ·)) (last : Option Name) :
    (order names last).Pairwise fun first second => Ahead second first last := by
  cases last with
  | none => exact hnames
  | some last =>
      rw [order_some, List.pairwise_append]
      refine ⟨?_, ?_, ?_⟩
      · have hsorted := List.Pairwise.sublist
          (List.dropWhile_sublist fun name => decide (name ≤ last)) hnames
        apply hsorted.imp_of_mem
        intro first second hfirst hsecond hlt
        rw [Ahead, if_pos (lt_of_mem_dropWhile hnames hsecond)]
        exact ⟨lt_of_mem_dropWhile hnames hfirst, hlt⟩
      · have hsorted := List.Pairwise.sublist
          (List.takeWhile_sublist fun name => decide (name ≤ last)) hnames
        apply hsorted.imp_of_mem
        intro first second _ hsecond hlt
        have hle : second ≤ last := by simpa using List.mem_takeWhile_imp hsecond
        rw [Ahead, if_neg (not_lt.2 hle)]
        exact Or.inr hlt
      · intro first hfirst second hsecond
        have hle : second ≤ last := by simpa using List.mem_takeWhile_imp hsecond
        rw [Ahead, if_neg (not_lt.2 hle)]
        exact Or.inl (lt_of_mem_dropWhile hnames hfirst)

end Order

/-! ### Waiting -/

section Waiting

variable {waiting next other : Name} {last : Option Name}

theorem not_ahead_self (waiting : Name) (last : Option Name) :
    ¬ Ahead waiting waiting last := by
  cases last with
  | none => exact lt_irrefl waiting
  | some last =>
      rw [Ahead]
      split_ifs with hlast
      · exact fun hahead => lt_irrefl waiting hahead.2
      · exact fun hahead => hahead.elim hlast (lt_irrefl waiting)

/-- Serving one who is ahead puts nobody else ahead. -/
theorem Ahead.of_served (hnext : Ahead waiting next last)
    (hother : Ahead waiting other (some next)) : Ahead waiting other last := by
  cases last with
  | none =>
      have hlt : next < waiting := hnext
      rw [Ahead, if_pos hlt] at hother
      exact hother.2
  | some last =>
      rw [Ahead] at hnext hother ⊢
      split_ifs at hnext ⊢ with hlast
      · rw [if_pos hnext.2] at hother
        exact ⟨lt_trans hnext.1 hother.1, hother.2⟩
      · rcases hnext with hnext | hnext
        · rw [if_neg (not_lt.2 ((not_lt.1 hlast).trans hnext.le))] at hother
          exact hother.imp_left (lt_trans hnext)
        · rw [if_pos hnext] at hother
          exact Or.inr hother.2

theorem not_ahead_served (waiting next : Name) : ¬ Ahead waiting next (some next) := by
  rw [Ahead]
  split_ifs with hlt
  · exact fun hahead => lt_irrefl next hahead.1
  · exact fun hahead => hahead.elim (lt_irrefl next) hlt

/-- How many of the names come up before the waiting one. -/
def rank (names : Finset Name) (waiting : Name) (last : Option Name) : ℕ :=
  (names.filter fun other => Ahead waiting other last).card

theorem rank_lt_card {names : Finset Name} (hwaiting : waiting ∈ names)
    (last : Option Name) : rank names waiting last < names.card := by
  apply Finset.card_lt_card
  rw [Finset.ssubset_iff_of_subset (Finset.filter_subset _ _)]
  refine ⟨waiting, hwaiting, fun hmem => ?_⟩
  exact not_ahead_self waiting last (Finset.mem_filter.1 hmem).2

theorem rank_served {names : Finset Name} (hname : next ∈ names)
    (hnext : Ahead waiting next last) :
    rank names waiting (some next) < rank names waiting last := by
  apply Finset.card_lt_card
  rw [Finset.ssubset_iff_of_subset]
  · refine ⟨next, Finset.mem_filter.2 ⟨hname, hnext⟩, fun hmem => ?_⟩
    exact not_ahead_served waiting next (Finset.mem_filter.1 hmem).2
  · intro other hother
    obtain ⟨hmem, hahead⟩ := Finset.mem_filter.1 hother
    exact Finset.mem_filter.2 ⟨hmem, hnext.of_served hahead⟩

/-- A round that serves some from the front, and not the waiting one, brings it
nearer. -/
theorem rank_round {names served : List Name} {all : Finset Name}
    (hnames : names.Pairwise (· < ·)) (hall : ∀ name ∈ names, name ∈ all)
    (hserved : served <+: order names last) (hnext : served.getLast? = some next)
    (hwaiting : waiting ∈ names) (hnot : waiting ∉ served) :
    rank all waiting (some next) < rank all waiting last := by
  obtain ⟨rest, hrest⟩ := hserved
  have hlater : waiting ∈ rest := by
    have hmem : waiting ∈ served ++ rest := hrest ▸ mem_order.2 hwaiting
    exact (List.mem_append.1 hmem).resolve_left hnot
  have hmem : next ∈ served := List.mem_of_getLast? hnext
  have hsorted := pairwise_order hnames last
  rw [← hrest] at hsorted
  apply rank_served
  · exact hall next (mem_order.1 (hrest ▸ List.mem_append_left rest hmem))
  · exact (List.pairwise_append.1 hsorted).2.2 next hmem waiting hlater

end Waiting

end Kitaebot.RoundRobin
