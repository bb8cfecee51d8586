import Mathlib.Order.Lattice
import Mathlib.Data.List.Basic
import Mathlib.Data.Nat.Notation

/-!
# Sorted maps

A map kept as its entries in the strict order of their keys, the way a `BTreeMap`
lists them.
-/

namespace Kitaebot

/-- Entries with strictly increasing keys. -/
structure SortedMap (Key Value : Type) [LinearOrder Key] where
  entries : List (Key × Value)
  sorted : (entries.map Prod.fst).Pairwise (· < ·)

namespace SortedMap

variable {Key Value : Type} [LinearOrder Key]

def empty : SortedMap Key Value := ⟨[], .nil⟩

def keys (map : SortedMap Key Value) : List Key := map.entries.map Prod.fst

/-- The value of the first entry with the key. -/
def lookup (key : Key) : List (Key × Value) → Option Value
  | [] => none
  | entry :: entries => if entry.1 = key then some entry.2 else lookup key entries

def find? (map : SortedMap Key Value) (key : Key) : Option Value :=
  lookup key map.entries

/-- Insert in order; an entry with the key is replaced. -/
def insertEntry (key : Key) (value : Value) : List (Key × Value) → List (Key × Value)
  | [] => [(key, value)]
  | entry :: entries =>
      if key < entry.1 then (key, value) :: entry :: entries
      else if key = entry.1 then (key, value) :: entries
      else entry :: insertEntry key value entries

theorem mem_keys_insertEntry {key other : Key} {value : Value}
    {entries : List (Key × Value)} :
    other ∈ (insertEntry key value entries).map Prod.fst ↔
      other = key ∨ other ∈ entries.map Prod.fst := by
  induction entries with
  | nil => simp [insertEntry]
  | cons entry entries ih =>
      rw [insertEntry]
      split_ifs with hlt heq
      · simp
      · simp [heq]
      · rw [List.map_cons, List.mem_cons, ih, List.map_cons, List.mem_cons]
        exact or_left_comm

theorem sorted_insertEntry (key : Key) (value : Value) {entries : List (Key × Value)}
    (hsorted : (entries.map Prod.fst).Pairwise (· < ·)) :
    ((insertEntry key value entries).map Prod.fst).Pairwise (· < ·) := by
  induction entries with
  | nil => exact List.pairwise_singleton _ _
  | cons entry entries ih =>
      rw [List.map_cons, List.pairwise_cons] at hsorted
      rw [insertEntry]
      split_ifs with hlt heq
      · rw [List.map_cons, List.map_cons, List.pairwise_cons, List.pairwise_cons]
        refine ⟨?_, hsorted⟩
        intro other hother
        rcases List.mem_cons.1 hother with rfl | hother
        · exact hlt
        · exact lt_trans hlt (hsorted.1 other hother)
      · rw [List.map_cons, List.pairwise_cons]
        exact heq ▸ hsorted
      · rw [List.map_cons, List.pairwise_cons]
        refine ⟨?_, ih hsorted.2⟩
        intro other hother
        rcases mem_keys_insertEntry.1 hother with rfl | hother
        · exact lt_of_le_of_ne (not_lt.1 hlt) (Ne.symm heq)
        · exact hsorted.1 other hother

def insert (map : SortedMap Key Value) (key : Key) (value : Value) :
    SortedMap Key Value :=
  ⟨insertEntry key value map.entries, sorted_insertEntry key value map.sorted⟩

/-- The keys are listed in their order. -/
theorem pairwise_keys (map : SortedMap Key Value) : map.keys.Pairwise (· < ·) :=
  map.sorted

theorem nodup_keys (map : SortedMap Key Value) : map.keys.Nodup :=
  map.pairwise_keys.imp fun hlt => ne_of_lt hlt

theorem lookup_insertEntry (key other : Key) (value : Value)
    (entries : List (Key × Value)) :
    lookup other (insertEntry key value entries) =
      if other = key then some value else lookup other entries := by
  induction entries with
  | nil => simp [insertEntry, lookup, eq_comm]
  | cons entry entries ih =>
      by_cases hother : other = key
      · subst hother
        rw [if_pos rfl, insertEntry]
        split_ifs with hlt heq
        · exact if_pos rfl
        · exact if_pos rfl
        · rw [lookup, if_neg (Ne.symm heq), ih, if_pos rfl]
      · rw [if_neg hother] at ih ⊢
        rw [insertEntry]
        split_ifs with hlt heq
        · rw [lookup, if_neg (Ne.symm hother)]
        · rw [lookup, if_neg (Ne.symm hother), lookup, if_neg (heq ▸ Ne.symm hother)]
        · rw [lookup, ih, lookup]

@[simp]
theorem find?_empty (key : Key) : (empty : SortedMap Key Value).find? key = none := rfl

/-- The inserted key has the new value, every other its old one. -/
theorem find?_insert (map : SortedMap Key Value) (key other : Key) (value : Value) :
    (map.insert key value).find? other =
      if other = key then some value else map.find? other :=
  lookup_insertEntry key other value map.entries

@[simp]
theorem find?_insert_self (map : SortedMap Key Value) (key : Key) (value : Value) :
    (map.insert key value).find? key = some value := by
  rw [find?_insert, if_pos rfl]

theorem find?_insert_of_ne (map : SortedMap Key Value) {key other : Key}
    (hother : other ≠ key) (value : Value) :
    (map.insert key value).find? other = map.find? other := by
  rw [find?_insert, if_neg hother]

theorem lookup_isSome_iff {key : Key} {entries : List (Key × Value)} :
    (lookup key entries).isSome ↔ key ∈ entries.map Prod.fst := by
  induction entries with
  | nil => simp [lookup]
  | cons entry entries ih =>
      rw [lookup, List.map_cons, List.mem_cons]
      split_ifs with hkey
      · simp [hkey]
      · simp [ih, Ne.symm hkey]

theorem mem_keys {map : SortedMap Key Value} {key : Key} :
    key ∈ map.keys ↔ ∃ value, map.find? key = some value := by
  rw [← Option.isSome_iff_exists]
  exact lookup_isSome_iff.symm

/-- Items put in under their keys, where they are kept, with values that depend on
the keys alone. -/
theorem find?_foldl_insert {Item : Type} (key : Item → Key) (value : Key → Value)
    (keep : Key → Prop) [DecidablePred keep] (items : List Item)
    (map : SortedMap Key Value) (other : Key) :
    (items.foldl (fun map item =>
        if keep (key item) then map.insert (key item) (value (key item)) else map)
      map).find? other =
      if other ∈ items.map key ∧ keep other then some (value other)
      else map.find? other := by
  induction items generalizing map with
  | nil => simp
  | cons item items ih =>
      rw [List.foldl_cons, ih, List.map_cons]
      by_cases hlater : other ∈ items.map key ∧ keep other
      · rw [if_pos hlater, if_pos ⟨List.mem_cons_of_mem _ hlater.1, hlater.2⟩]
      · rw [if_neg hlater]
        by_cases hsame : other = key item
        · subst hsame
          split_ifs with hkeep hnow hnow
          · exact map.find?_insert_self _ _
          · exact absurd ⟨List.mem_cons_self, hkeep⟩ hnow
          · exact absurd hnow.2 hkeep
          · rfl
        · have hnow : ¬ (other ∈ key item :: items.map key ∧ keep other) := by
            rintro ⟨hmem, hkeep⟩
            exact hlater ⟨(List.mem_cons.1 hmem).resolve_left hsame, hkeep⟩
          rw [if_neg hnow]
          split
          · exact map.find?_insert_of_ne hsame _
          · rfl

/-- Items of different keys put in under them, where they are kept. -/
theorem find?_foldl_insert_item {Item : Type} (key : Item → Key) (value : Item → Value)
    (keep : Item → Prop) [DecidablePred keep] {items : List Item}
    (hnodup : (items.map key).Nodup) (map : SortedMap Key Value) (other : Key) :
    (items.foldl (fun map item =>
        if keep item then map.insert (key item) (value item) else map) map).find? other =
      (((items.find? fun item => decide (key item = other)).filter fun item =>
        decide (keep item)).map value).or (map.find? other) := by
  induction items generalizing map with
  | nil => rfl
  | cons item items ih =>
      rw [List.map_cons, List.nodup_cons] at hnodup
      rw [List.foldl_cons, ih hnodup.2]
      by_cases hsame : key item = other
      · have hnone : (items.find? fun item => decide (key item = other)) = none := by
          apply List.find?_eq_none.2
          intro later hlater hfound
          have hkey := (of_decide_eq_true hfound).trans hsame.symm
          exact hnodup.1 (hkey ▸ List.mem_map_of_mem hlater)
        rw [hnone, List.find?_cons_of_pos (by simp [hsame]), Option.filter_some]
        by_cases hkeep : keep item
        · rw [if_pos hkeep, if_pos (decide_eq_true hkeep), hsame, find?_insert_self]
          rfl
        · rw [if_neg hkeep, if_neg (by simp [hkeep])]
          rfl
      · rw [List.find?_cons_of_neg (by simp [hsame])]
        split
        · rw [find?_insert_of_ne map (Ne.symm hsame)]
        · rfl

/-- Insert every entry of another map. -/
def extend (map other : SortedMap Key Value) : SortedMap Key Value :=
  other.entries.foldl (fun map entry => map.insert entry.1 entry.2) map

theorem find?_foldl_entries {entries : List (Key × Value)}
    (hnodup : (entries.map Prod.fst).Nodup) (map : SortedMap Key Value) (key : Key) :
    (entries.foldl (fun map entry => map.insert entry.1 entry.2) map).find? key =
      (lookup key entries).or (map.find? key) := by
  induction entries generalizing map with
  | nil => rfl
  | cons entry entries ih =>
      rw [List.map_cons, List.nodup_cons] at hnodup
      rw [List.foldl_cons, ih hnodup.2, lookup]
      split_ifs with hkey
      · have hnone : lookup key entries = none := by
          rw [← Option.not_isSome_iff_eq_none, lookup_isSome_iff, ← hkey]
          exact hnodup.1
        rw [hnone, ← hkey, find?_insert_self]
        rfl
      · rw [find?_insert_of_ne map (Ne.symm hkey)]

theorem find?_extend (map other : SortedMap Key Value) (key : Key) :
    (map.extend other).find? key = (other.find? key).or (map.find? key) :=
  find?_foldl_entries other.nodup_keys map key

end SortedMap

end Kitaebot
