import Mathlib.Data.List.Basic
import Mathlib.Data.Nat.Notation

/-!
# Logs read up to a watermark

Logs only grow, and a reader takes spans from where it stopped in each.  What it took
from a log, in order, is the part of the log between the mark it started from and the
mark it has reached.
-/

namespace Kitaebot.Watermarks

variable {Name Item : Type} [DecidableEq Name]

/-- What the spans took from one log. -/
def portion (spans : List (Name × List Item)) (name : Name) : List Item :=
  spans.flatMap fun span => if span.1 = name then span.2 else []

/-- The marks after some spans. -/
def advance (marks : Name → ℕ) (spans : List (Name × List Item)) (name : Name) : ℕ :=
  marks name + (portion spans name).length

@[simp]
theorem portion_nil (name : Name) :
    portion ([] : List (Name × List Item)) name = [] := rfl

theorem portion_cons (span : Name × List Item) (spans : List (Name × List Item))
    (name : Name) :
    portion (span :: spans) name =
      (if span.1 = name then span.2 else []) ++ portion spans name := by
  rw [portion, List.flatMap_cons, ← portion]

theorem portion_append (first second : List (Name × List Item)) (name : Name) :
    portion (first ++ second) name = portion first name ++ portion second name :=
  List.flatMap_append

theorem portion_of_not_mem {spans : List (Name × List Item)} {name : Name}
    (hname : name ∉ spans.map Prod.fst) : portion spans name = [] := by
  induction spans with
  | nil => rfl
  | cons span spans ih =>
      rw [List.map_cons, List.mem_cons, not_or] at hname
      rw [portion_cons, if_neg (Ne.symm hname.1), List.nil_append, ih hname.2]

/-- With one span for each log, the portion of a log is its span. -/
theorem portion_of_mem {spans : List (Name × List Item)}
    (hnodup : (spans.map Prod.fst).Nodup) {name : Name} {span : List Item}
    (hspan : (name, span) ∈ spans) : portion spans name = span := by
  induction spans with
  | nil => cases hspan
  | cons head spans ih =>
      rw [List.map_cons, List.nodup_cons] at hnodup
      rw [portion_cons]
      rcases List.mem_cons.1 hspan with rfl | hspan
      · rw [if_pos rfl, portion_of_not_mem hnodup.1, List.append_nil]
      · have hne : head.1 ≠ name := fun heq =>
          hnodup.1 (heq ▸ List.mem_map_of_mem hspan)
        rw [if_neg hne, List.nil_append, ih hnodup.2 hspan]

/-- Every log has been taken from where it was primed up to its mark. -/
structure Drained (logs : Name → List Item) (primed marks : Name → ℕ)
    (taken : List (Name × List Item)) : Prop where
  primed_le : ∀ name, primed name ≤ marks name
  marks_le : ∀ name, marks name ≤ (logs name).length
  taken : ∀ name, portion taken name = ((logs name).take (marks name)).drop (primed name)

variable {logs : Name → List Item} {primed marks : Name → ℕ}
  {taken : List (Name × List Item)}

theorem Drained.start (hprimed : ∀ name, primed name ≤ (logs name).length) :
    Drained logs primed primed [] where
  primed_le _ := Nat.le_refl _
  marks_le := hprimed
  taken name := by
    have hlength : ((logs name).take (primed name)).length ≤ primed name :=
      List.length_take_le _ _
    rw [List.drop_eq_nil_of_le hlength, portion_nil]

/-- Logs may grow. -/
theorem Drained.grow (hdrained : Drained logs primed marks taken)
    {later : Name → List Item} (hgrow : ∀ name, logs name <+: later name) :
    Drained later primed marks taken where
  primed_le := hdrained.primed_le
  marks_le name := Nat.le_trans (hdrained.marks_le name) (hgrow name).length_le
  taken name := by
    obtain ⟨more, hmore⟩ := hgrow name
    rw [hdrained.taken, ← hmore, List.take_append_of_le_length (hdrained.marks_le name)]

/-- Each span is the beginning of what its log still has. -/
theorem Drained.fold (hdrained : Drained logs primed marks taken)
    {spans : List (Name × List Item)} (hnodup : (spans.map Prod.fst).Nodup)
    (hspans : ∀ span ∈ spans, span.2 <+: (logs span.1).drop (marks span.1)) :
    Drained logs primed (advance marks spans) (taken ++ spans) := by
  have hportion : ∀ name, portion spans name <+: (logs name).drop (marks name) := by
    intro name
    by_cases hname : name ∈ spans.map Prod.fst
    · obtain ⟨span, hspan, rfl⟩ := List.mem_map.1 hname
      rw [portion_of_mem hnodup hspan]
      exact hspans span hspan
    · rw [portion_of_not_mem hname]
      exact List.nil_prefix
  constructor
  · exact fun name => Nat.le_trans (hdrained.primed_le name) (Nat.le_add_right _ _)
  · intro name
    have hlength := (hportion name).length_le
    have hmark := hdrained.marks_le name
    rw [List.length_drop] at hlength
    rw [advance]
    omega
  · intro name
    have hmark := hdrained.marks_le name
    have hprimed : primed name ≤ ((logs name).take (marks name)).length := by
      rw [List.length_take]
      exact Nat.le_min.2 ⟨hdrained.primed_le name,
        Nat.le_trans (hdrained.primed_le name) hmark⟩
    rw [portion_append, hdrained.taken, advance, List.take_add,
      List.drop_append_of_le_length hprimed,
      ← List.prefix_iff_eq_take.1 (hportion name)]

/-- A log is what it was primed past, what was taken from it and what is left. -/
theorem Drained.split (hdrained : Drained logs primed marks taken) (name : Name) :
    logs name = (logs name).take (primed name) ++ portion taken name ++
      (logs name).drop (marks name) := by
  have hfront : (logs name).take (marks name) =
      (logs name).take (primed name) ++ portion taken name := by
    have hsplit := List.take_append_drop (primed name) ((logs name).take (marks name))
    rw [List.take_take, Nat.min_eq_left (hdrained.primed_le name), ← hdrained.taken]
      at hsplit
    exact hsplit.symm
  rw [← hfront, List.take_append_drop]

end Kitaebot.Watermarks
