import Mathlib.Data.List.Sort

/-!
# Tables read in key order

A table is a list of rows in insertion order; a query reads it ordered by a
natural-number key.  This module proves how the ordered reading changes under
the two writes a log-like table sees: appending a row at the next free key, and
collapsing a key range into one row placed inside that range.
-/

namespace Kitaebot.OrderedTable

variable {Row : Type*} (key : Row → ℕ)

/-- `ORDER BY key`. -/
def orderBy (rows : List Row) : List Row :=
  rows.insertionSort fun left right => key left ≤ key right

/-- `COALESCE(MAX(key), -1) + 1`. -/
def nextKey (rows : List Row) : ℕ :=
  rows.foldr (fun row next => max (key row + 1) next) 0

/-- `key BETWEEN low AND high`. -/
def inRange (low high : ℕ) (row : Row) : Bool :=
  decide (low ≤ key row) && decide (key row ≤ high)

/-- `DELETE ... WHERE key BETWEEN low AND high`, then one `INSERT`. -/
def collapse (low high : ℕ) (row : Row) (rows : List Row) : List Row :=
  rows.filter (fun other => !inRange key low high other) ++ [row]

/-- The key of the first row of a group, zero for the empty group. -/
def firstKey (group : List Row) : ℕ :=
  (group.head?.map key).getD 0

/-- The key of the last row of a group, zero for the empty group. -/
def lastKey (group : List Row) : ℕ :=
  (group.getLast?.map key).getD 0

/-- Rows listed by strictly increasing key. -/
def Increasing (rows : List Row) : Prop :=
  rows.Pairwise fun left right => key left < key right

@[simp]
theorem inRange_iff (low high : ℕ) (row : Row) :
    inRange key low high row = true ↔ low ≤ key row ∧ key row ≤ high := by
  simp [inRange]

theorem orderBy_perm (rows : List Row) : (orderBy key rows).Perm rows :=
  List.perm_insertionSort _ _

@[simp]
theorem mem_orderBy {rows : List Row} {row : Row} :
    row ∈ orderBy key rows ↔ row ∈ rows :=
  (orderBy_perm key rows).mem_iff

theorem lt_nextKey {rows : List Row} {row : Row} (hrow : row ∈ rows) :
    key row < nextKey key rows := by
  induction rows with
  | nil => simp at hrow
  | cons head tail ih =>
      simp only [nextKey, List.foldr_cons]
      rcases List.mem_cons.mp hrow with rfl | htail
      · omega
      · have := ih htail
        simp only [nextKey] at this
        omega

theorem nextKey_le {rows : List Row} {bound : ℕ} (hrows : ∀ row ∈ rows, key row < bound) :
    nextKey key rows ≤ bound := by
  induction rows with
  | nil => exact Nat.zero_le _
  | cons row rows ih =>
      obtain ⟨hrow, hrest⟩ := List.forall_mem_cons.1 hrows
      exact max_le hrow (ih hrest)

/-- The next key of dense keys is their number. -/
theorem nextKey_of_range {rows : List Row} {count : ℕ}
    (hrows : rows.map key = List.range count) : nextKey key rows = count := by
  apply le_antisymm
  · apply nextKey_le
    intro row hrow
    have hkey : key row ∈ List.range count := hrows ▸ List.mem_map.2 ⟨row, hrow, rfl⟩
    exact List.mem_range.1 hkey
  · cases count with
    | zero => exact Nat.zero_le _
    | succ count =>
        have hlast : count ∈ rows.map key := hrows ▸ List.mem_range.2 (Nat.lt_succ_self count)
        obtain ⟨row, hrow, rfl⟩ := List.mem_map.1 hlast
        exact lt_nextKey key hrow

variable {key}

theorem Increasing.nodup_map {rows : List Row} (hrows : Increasing key rows) :
    (rows.map key).Nodup := by
  rw [List.Nodup, List.pairwise_map]
  exact hrows.imp fun hlt => Nat.ne_of_lt hlt

theorem Increasing.filter {rows : List Row} (hrows : Increasing key rows)
    (keep : Row → Bool) : Increasing key (rows.filter keep) :=
  List.Pairwise.filter keep hrows

theorem Increasing.sublist {left right : List Row} (hright : Increasing key right)
    (hsub : left.Sublist right) : Increasing key left :=
  List.Pairwise.sublist hsub hright

/-- Two strictly increasing lists with the same rows are equal. -/
theorem Increasing.eq_of_perm {left right : List Row}
    (hleft : Increasing key left) (hright : Increasing key right)
    (hperm : left.Perm right) : left = right :=
  hperm.eq_of_pairwise
    (fun _ _ _ _ hlt hgt => absurd hlt (Nat.lt_asymm hgt))
    hleft hright

/-- A strictly increasing list whose rows all occur in another one is a
sublist of it. -/
theorem Increasing.sublist_of_subset {left right : List Row}
    (hleft : Increasing key left) (hright : Increasing key right)
    (hsubset : left ⊆ right) : left.Sublist right := by
  have hantisymm : Std.Antisymm fun left right : Row => key left < key right :=
    ⟨fun _ _ hlt hgt => absurd hlt (Nat.lt_asymm hgt)⟩
  have hnodup : left.Nodup := hleft.nodup_map.of_map
  exact List.sublist_of_subperm_of_pairwise (List.subperm_of_subset hnodup hsubset)
    hleft hright

/-- Rows ordered by one strictly increasing key are ordered by any other. -/
theorem Increasing.lt_of_lt {other : Row → ℕ} {rows : List Row}
    (hrows : Increasing key rows) (hother : Increasing other rows)
    {left right : Row} (hleft : left ∈ rows) (hright : right ∈ rows)
    (hlt : key left < key right) : other left < other right := by
  induction rows with
  | nil => simp at hleft
  | cons head tail ih =>
      obtain ⟨hheadKey, htailKey⟩ := List.pairwise_cons.mp hrows
      obtain ⟨hheadOther, htailOther⟩ := List.pairwise_cons.mp hother
      rcases List.mem_cons.mp hleft with rfl | hleftTail
      · rcases List.mem_cons.mp hright with rfl | hrightTail
        · exact absurd hlt (lt_irrefl _)
        · exact hheadOther right hrightTail
      · rcases List.mem_cons.mp hright with rfl | hrightTail
        · exact absurd hlt (Nat.lt_asymm (hheadKey left hleftTail))
        · exact ih htailKey htailOther hleftTail hrightTail

/-- Distinct keys make the ordered reading strictly increasing. -/
theorem increasing_orderBy {rows : List Row} (hnodup : (rows.map key).Nodup) :
    Increasing key (orderBy key rows) := by
  have hsorted : (orderBy key rows).Pairwise
      fun left right => key left ≤ key right :=
    List.pairwise_insertionSort _ _
  have hdistinct : ((orderBy key rows).map key).Nodup :=
    ((orderBy_perm key rows).map key).nodup_iff.mpr hnodup
  rw [List.Nodup, List.pairwise_map] at hdistinct
  exact (hsorted.and hdistinct).imp fun ⟨hle, hne⟩ => lt_of_le_of_ne hle hne

/-- The ordered reading is the only strictly increasing listing of the rows. -/
theorem orderBy_eq {rows listing : List Row} (hlisting : Increasing key listing)
    (hperm : listing.Perm rows) : orderBy key rows = listing := by
  have hnodup : (rows.map key).Nodup :=
    (hperm.map key).nodup_iff.mp hlisting.nodup_map
  exact (increasing_orderBy hnodup).eq_of_perm hlisting
    ((orderBy_perm key rows).trans hperm.symm)

/-- A row inserted above every key is read last. -/
theorem orderBy_append {rows : List Row} {row : Row}
    (hnodup : (rows.map key).Nodup) (habove : ∀ other ∈ rows, key other < key row) :
    orderBy key (rows ++ [row]) = orderBy key rows ++ [row] := by
  apply orderBy_eq
  · refine List.pairwise_append.mpr
      ⟨increasing_orderBy hnodup, List.pairwise_singleton _ _, ?_⟩
    intro other hother last hlast
    rw [List.mem_singleton.mp hlast]
    exact habove other ((mem_orderBy key).mp hother)
  · exact (orderBy_perm key rows).append_right [row]

/-- A strictly increasing list is its rows below a bound, then the others. -/
theorem Increasing.split_below {rows : List Row} (hrows : Increasing key rows)
    (bound : ℕ) :
    rows = rows.filter (fun other => decide (key other < bound)) ++
      rows.filter (fun other => !decide (key other < bound)) := by
  apply hrows.eq_of_perm
  · refine List.pairwise_append.mpr ⟨hrows.filter _, hrows.filter _, ?_⟩
    intro lower hlower upper hupper
    have hlt := (List.mem_filter.mp hlower).2
    have hge := (List.mem_filter.mp hupper).2
    simp only [decide_eq_true_eq, Bool.not_eq_true', decide_eq_false_iff_not]
      at hlt hge
    omega
  · exact (List.filter_append_perm _ _).symm

/-- A strictly increasing list is its rows below a key range, in it and above
it. -/
theorem Increasing.split_range {rows : List Row} {low high : ℕ}
    (hrows : Increasing key rows) (hrange : low ≤ high) :
    rows = rows.filter (fun other => decide (key other < low)) ++
      (rows.filter (inRange key low high) ++
        rows.filter (fun other => decide (high < key other))) := by
  have habove := (hrows.filter fun other => !decide (key other < low)).split_below
    (high + 1)
  rw [List.filter_filter, List.filter_filter] at habove
  have hin : (fun other => decide (key other < high + 1) &&
      !decide (key other < low)) = inRange key low high := by
    funext other
    rw [Bool.eq_iff_iff, inRange_iff]
    simp only [Bool.and_eq_true, decide_eq_true_eq, Bool.not_eq_true',
      decide_eq_false_iff_not]
    omega
  have hout : (fun other => !decide (key other < high + 1) &&
      !decide (key other < low)) = fun other => decide (high < key other) := by
    funext other
    rw [Bool.eq_iff_iff]
    simp only [Bool.and_eq_true, decide_eq_true_eq, Bool.not_eq_true',
      decide_eq_false_iff_not]
    omega
  rw [hin, hout] at habove
  rw [← habove]
  exact hrows.split_below low

/-- Outside a key range, a strictly increasing list is its rows below the
range followed by its rows above it. -/
theorem Increasing.filter_outside {rows : List Row} {low high : ℕ}
    (hrows : Increasing key rows) (hrange : low ≤ high) :
    rows.filter (fun other => !inRange key low high other) =
      rows.filter (fun other => decide (key other < low)) ++
        rows.filter (fun other => decide (high < key other)) := by
  have hsplit := (hrows.filter
    fun other => !inRange key low high other).split_range hrange
  rw [List.filter_filter, List.filter_filter, List.filter_filter] at hsplit
  have hbelow : (fun other => decide (key other < low) &&
      !inRange key low high other) = fun other => decide (key other < low) := by
    funext other
    rw [Bool.eq_iff_iff]
    simp only [inRange, Bool.and_eq_true, decide_eq_true_eq, Bool.not_eq_true',
      Bool.and_eq_false_iff, decide_eq_false_iff_not]
    omega
  have hnone : (fun other => inRange key low high other &&
      !inRange key low high other) = fun _ => false := by
    funext other
    exact Bool.and_not_self _
  have habove : (fun other => decide (high < key other) &&
      !inRange key low high other) = fun other => decide (high < key other) := by
    funext other
    rw [Bool.eq_iff_iff]
    simp only [inRange, Bool.and_eq_true, decide_eq_true_eq, Bool.not_eq_true',
      Bool.and_eq_false_iff, decide_eq_false_iff_not]
    omega
  rw [hbelow, hnone, habove, List.filter_false, List.nil_append] at hsplit
  exact hsplit

/-- Deleting a key range and inserting one row inside it replaces, in the
ordered reading, the rows of the range by that row. -/
theorem orderBy_collapse {rows : List Row} {row : Row} {low high : ℕ}
    (hnodup : (rows.map key).Nodup) (hlow : low ≤ key row) (hhigh : key row ≤ high) :
    orderBy key (collapse key low high row rows) =
      (orderBy key rows).filter (fun other => decide (key other < low)) ++
        row :: (orderBy key rows).filter (fun other => decide (high < key other)) := by
  have hincreasing := increasing_orderBy hnodup
  apply orderBy_eq
  · refine List.pairwise_append.mpr
      ⟨hincreasing.filter _, List.pairwise_cons.mpr ⟨?_, hincreasing.filter _⟩, ?_⟩
    · intro other hother
      have := (List.mem_filter.mp hother).2
      simp only [decide_eq_true_eq] at this
      omega
    · intro below hbelow other hother
      have hlt := (List.mem_filter.mp hbelow).2
      simp only [decide_eq_true_eq] at hlt
      rcases List.mem_cons.mp hother with rfl | habove
      · omega
      · have hgt := (List.mem_filter.mp habove).2
        simp only [decide_eq_true_eq] at hgt
        omega
  · have hsplit := hincreasing.filter_outside (hlow.trans hhigh)
    have hkept : ((orderBy key rows).filter
          (fun other => !inRange key low high other)).Perm
        (rows.filter fun other => !inRange key low high other) :=
      (orderBy_perm key rows).filter _
    rw [hsplit] at hkept
    exact List.perm_middle.trans
      ((hkept.cons row).trans (List.perm_append_singleton row _).symm)

/-- Appending at the next free key keeps the keys distinct. -/
theorem nodup_append_next {rows : List Row} {row : Row}
    (hnodup : (rows.map key).Nodup) (hrow : key row = nextKey key rows) :
    ((rows ++ [row]).map key).Nodup := by
  rw [List.map_append, List.nodup_append]
  refine ⟨hnodup, List.nodup_singleton _, ?_⟩
  intro first hfirst second hsecond
  obtain ⟨other, hother, rfl⟩ := List.mem_map.mp hfirst
  have := lt_nextKey key hother
  simp only [List.map_cons, List.map_nil, List.mem_singleton] at hsecond
  omega

/-- Collapsing a range keeps the keys distinct. -/
theorem nodup_collapse {rows : List Row} {row : Row} {low high : ℕ}
    (hnodup : (rows.map key).Nodup) (hlow : low ≤ key row) (hhigh : key row ≤ high) :
    ((collapse key low high row rows).map key).Nodup := by
  rw [collapse, List.map_append, List.nodup_append]
  refine ⟨hnodup.sublist (List.filter_sublist.map key), List.nodup_singleton _, ?_⟩
  intro first hfirst second hsecond
  obtain ⟨other, hother, rfl⟩ := List.mem_map.mp hfirst
  have houtside := (List.mem_filter.mp hother).2
  simp only [inRange, Bool.not_eq_true', Bool.and_eq_false_iff,
    decide_eq_false_iff_not] at houtside
  simp only [List.map_cons, List.map_nil, List.mem_singleton] at hsecond
  omega

@[simp]
theorem firstKey_cons (row : Row) (rows : List Row) :
    firstKey key (row :: rows) = key row := rfl

@[simp]
theorem lastKey_concat (rows : List Row) (row : Row) :
    lastKey key (rows ++ [row]) = key row := by
  simp [lastKey]

/-- The first and last keys bound every key of a strictly increasing group. -/
theorem Increasing.key_mem_range {group : List Row} (hgroup : Increasing key group)
    {row : Row} (hrow : row ∈ group) :
    firstKey key group ≤ key row ∧ key row ≤ lastKey key group := by
  constructor
  · cases group with
    | nil => simp at hrow
    | cons head tail =>
        rcases List.mem_cons.mp hrow with rfl | htail
        · exact le_rfl
        · exact Nat.le_of_lt ((List.pairwise_cons.mp hgroup).1 row htail)
  · rcases List.eq_nil_or_concat' group with rfl | ⟨front, last, rfl⟩
    · simp at hrow
    · rw [lastKey_concat]
      rcases List.mem_append.mp hrow with hfront | hlast
      · exact Nat.le_of_lt ((List.pairwise_append.mp hgroup).2.2 row hfront last
          (List.mem_singleton_self last))
      · rw [List.mem_singleton.mp hlast]

variable (key) in
theorem firstKey_mem {group : List Row} (hne : group ≠ []) :
    ∃ row ∈ group, key row = firstKey key group := by
  cases group with
  | nil => exact absurd rfl hne
  | cons head tail => exact ⟨head, List.mem_cons_self, rfl⟩

variable (key) in
theorem lastKey_mem {group : List Row} (hne : group ≠ []) :
    ∃ row ∈ group, key row = lastKey key group := by
  rcases List.eq_nil_or_concat' group with rfl | ⟨front, last, rfl⟩
  · exact absurd rfl hne
  · exact ⟨last, by simp, by rw [lastKey_concat]⟩

/-- In a strictly increasing list, the key range of a nonempty contiguous
group holds exactly that group. -/
theorem Increasing.filter_inRange {before group after : List Row}
    (hrows : Increasing key (before ++ group ++ after)) (hne : group ≠ []) :
    (before ++ group ++ after).filter
        (inRange key (firstKey key group) (lastKey key group)) = group := by
  obtain ⟨hfront, _, hafter⟩ := List.pairwise_append.mp hrows
  obtain ⟨_, hgroup, hbefore⟩ := List.pairwise_append.mp hfront
  obtain ⟨first, hfirst, hfirstKey⟩ := firstKey_mem key hne
  obtain ⟨last, hlast, hlastKey⟩ := lastKey_mem key hne
  rw [List.filter_append, List.filter_append]
  have hnone : before.filter
      (inRange key (firstKey key group) (lastKey key group)) = [] := by
    rw [List.filter_eq_nil_iff]
    intro row hrow hin
    have := hbefore row hrow first hfirst
    rw [inRange_iff] at hin
    omega
  have hall : group.filter
      (inRange key (firstKey key group) (lastKey key group)) = group := by
    rw [List.filter_eq_self]
    intro row hrow
    rw [inRange_iff]
    exact Increasing.key_mem_range hgroup hrow
  have hrest : after.filter
      (inRange key (firstKey key group) (lastKey key group)) = [] := by
    rw [List.filter_eq_nil_iff]
    intro row hrow hin
    have := hafter last (List.mem_append_right _ hlast) row hrow
    rw [inRange_iff] at hin
    omega
  rw [hnone, hall, hrest]
  simp

end Kitaebot.OrderedTable
