import Mathlib.Algebra.GroupWithZero.Nat
import Mathlib.Data.List.Nodup
import Mathlib.Logic.Function.Basic

/-!
# Tables of recent records

What a bounded table of records is for: it holds every record of a key since the key
was last forgotten, for as many keys as fit.  A new key that does not fit displaces the
key that came first.
-/

namespace Kitaebot.RecentTable

variable {Key Item : Type} [DecidableEq Key] {capacity : ℕ}

/-- The keys in the order in which they came, and the records of each. -/
structure Table (Key Item : Type) (capacity : ℕ) where
  order : List Key
  records : Key → List Item
  nodup : order.Nodup
  length_le : order.length ≤ capacity
  mem_order_iff : ∀ key, key ∈ order ↔ records key ≠ []

namespace Table

def empty : Table Key Item capacity where
  order := []
  records _ := []
  nodup := List.nodup_nil
  length_le := Nat.zero_le _
  mem_order_iff key := by simp

/-- Forget a key and its records. -/
def forget (table : Table Key Item capacity) (key : Key) : Table Key Item capacity where
  order := table.order.filter (· ≠ key)
  records := Function.update table.records key []
  nodup := table.nodup.filter _
  length_le := Nat.le_trans (List.length_filter_le _ _) table.length_le
  mem_order_iff other := by
    rw [List.mem_filter, table.mem_order_iff, decide_eq_true_iff]
    by_cases hother : other = key
    · rw [hother, Function.update_self]
      simp
    · rw [Function.update_of_ne hother]
      exact and_iff_left hother

@[simp]
theorem order_forget (table : Table Key Item capacity) (key : Key) :
    (table.forget key).order = table.order.filter (· ≠ key) := rfl

theorem records_forget_self (table : Table Key Item capacity) (key : Key) :
    (table.forget key).records key = [] := Function.update_self ..

theorem records_forget_of_ne (table : Table Key Item capacity) {key other : Key}
    (hne : other ≠ key) : (table.forget key).records other = table.records other :=
  Function.update_of_ne hne ..

/-- Make room for a new key: the oldest one goes, where the table is full. -/
def room (table : Table Key Item capacity) : Table Key Item capacity :=
  if capacity ≤ table.order.length then
    match table.order with
    | [] => table
    | oldest :: _ => table.forget oldest
  else table

theorem room_of_lt {table : Table Key Item capacity} (hlt : table.order.length < capacity) :
    table.room = table :=
  if_neg (Nat.not_le.2 hlt)

theorem room_of_full {table : Table Key Item capacity} {oldest : Key} {rest : List Key}
    (hfull : capacity ≤ table.order.length) (horder : table.order = oldest :: rest) :
    table.room = table.forget oldest := by
  rw [room, if_pos hfull]
  split
  · next hnil => exact absurd (horder.symm.trans hnil) (List.cons_ne_nil _ _)
  · next hcons =>
      rw [List.cons.inj (hcons.symm.trans horder) |>.1]

/-- The oldest key leaves the others in their order. -/
theorem order_forget_oldest {table : Table Key Item capacity} {oldest : Key}
    {rest : List Key} (horder : table.order = oldest :: rest) :
    (table.forget oldest).order = rest := by
  have hnodup := table.nodup
  rw [horder, List.nodup_cons] at hnodup
  rw [order_forget, horder, List.filter_cons_of_neg (by simp), List.filter_eq_self]
  intro key hkey
  exact decide_eq_true fun heq => hnodup.1 (heq ▸ hkey)

theorem length_room_lt [NeZero capacity] (table : Table Key Item capacity) :
    table.room.order.length < capacity := by
  by_cases hfull : capacity ≤ table.order.length
  · cases horder : table.order with
    | nil =>
        rw [horder] at hfull
        exact absurd (Nat.le_zero.1 hfull) (NeZero.ne capacity)
    | cons oldest rest =>
        have hlength := table.length_le
        rw [room_of_full hfull horder, order_forget_oldest horder]
        rw [horder, List.length_cons] at hlength
        exact hlength
  · rw [room_of_lt (Nat.not_le.1 hfull)]
    exact Nat.not_le.1 hfull

/-- Making room brings no key back. -/
theorem not_mem_room {table : Table Key Item capacity} {key : Key}
    (hkey : key ∉ table.order) : key ∉ table.room.order := by
  rw [room]
  split
  · split
    · exact hkey
    · exact fun hmem => hkey (List.mem_filter.1 hmem).1
  · exact hkey

/-- List a key that is not in the table, with its first record. -/
def enter (table : Table Key Item capacity) (key : Key) (item : Item)
    (hkey : key ∉ table.order) (hroom : table.order.length < capacity) :
    Table Key Item capacity where
  order := table.order ++ [key]
  records := Function.update table.records key [item]
  nodup := by
    rw [List.nodup_append]
    exact ⟨table.nodup, List.nodup_singleton _, fun first hfirst second hsecond heq =>
      hkey (List.mem_singleton.1 hsecond ▸ heq ▸ hfirst)⟩
  length_le := by
    rw [List.length_append, List.length_singleton]
    exact hroom
  mem_order_iff other := by
    rw [List.mem_append, List.mem_singleton, table.mem_order_iff]
    by_cases hother : other = key
    · rw [hother, Function.update_self]
      simp
    · rw [Function.update_of_ne hother]
      exact or_iff_left hother

/-- Add a record to a key that is in the table. -/
def extend (table : Table Key Item capacity) (key : Key) (item : Item)
    (hkey : key ∈ table.order) : Table Key Item capacity where
  order := table.order
  records := Function.update table.records key (table.records key ++ [item])
  nodup := table.nodup
  length_le := table.length_le
  mem_order_iff other := by
    by_cases hother : other = key
    · rw [hother, Function.update_self]
      simp [hkey]
    · rw [Function.update_of_ne hother]
      exact table.mem_order_iff other

def record [NeZero capacity] (table : Table Key Item capacity) (key : Key) (item : Item) :
    Table Key Item capacity :=
  if hkey : key ∈ table.order then table.extend key item hkey
  else table.room.enter key item (not_mem_room hkey) table.length_room_lt

end Table

/-- What is done to a table. -/
inductive Event (Key Item : Type) where
  | record (key : Key) (item : Item)
  | forget (key : Key)

/-- What the table is to hold after an event. -/
def step [NeZero capacity] (table : Table Key Item capacity) :
    Event Key Item → Table Key Item capacity
  | .record key item => table.record key item
  | .forget key => table.forget key

end Kitaebot.RecentTable
