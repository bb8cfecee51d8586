import Mathlib.Data.List.DropRight
import Kitaebot.Core.RecentTable
import Kitaebot.Core.Run
import Kitaebot.Tools.FileEdit

/-!
# The history of futile edits

The history keeps two collections in step: the windows by path, and the paths in the
order of their first records.  Together they show the end of a table that remembers every
futile attempt since the last edit or eviction of its path.
-/

namespace Kitaebot.FileEdit.EditHistory

open RecentTable

instance : NeZero maxPaths := ⟨Nat.succ_ne_zero 31⟩

/-- What a bounded table of paths is to remember. -/
abbrev Ledger := Table String UInt64 maxPaths

def new : EditHistory := ⟨[], []⟩

/-- One operation on the history. -/
def step (history : EditHistory) : Event String UInt64 → EditHistory
  | .record path fingerprint => (history.recordFutile path fingerprint).1
  | .forget path => history.clear path

def paths (history : EditHistory) : List String := history.byPath.map Prod.fst

/-- The window of a path in a list of them. -/
def windowIn (windows : List (String × List UInt64)) (path : String) :
    Option (List UInt64) :=
  (windows.find? (·.1 == path)).map Prod.snd

/-- The window of a path, if it has one. -/
def window? (history : EditHistory) (path : String) : Option (List UInt64) :=
  windowIn history.byPath path

theorem ring_eq (history : EditHistory) (path : String) :
    history.ring path = (history.window? path).getD [] := rfl

theorem tracks_iff {history : EditHistory} {path : String} :
    history.tracks path = true ↔ path ∈ history.paths := by
  simp [tracks, paths]

/-! ### Windows -/

theorem windowIn_eq_none {windows : List (String × List UInt64)} {path : String} :
    windowIn windows path = none ↔ path ∉ windows.map Prod.fst := by
  rw [windowIn, Option.map_eq_none_iff, List.find?_eq_none, List.mem_map, not_exists]
  constructor
  · rintro hall entry ⟨hentry, rfl⟩
    exact hall entry hentry (beq_self_eq_true _)
  · intro hall entry hentry hpath
    exact hall entry ⟨hentry, beq_iff_eq.1 hpath⟩

theorem windowIn_remove_self (windows : List (String × List UInt64)) (path : String) :
    windowIn (windows.filter (·.1 != path)) path = none := by
  rw [windowIn_eq_none]
  simp

theorem windowIn_remove_of_ne (windows : List (String × List UInt64)) {path other : String}
    (hne : other ≠ path) :
    windowIn (windows.filter (·.1 != path)) other = windowIn windows other := by
  rw [windowIn, windowIn, List.find?_filter]
  congr 2
  funext entry
  by_cases hentry : entry.1 = other
  · simp [hentry, hne]
  · simp [hentry]

theorem windowIn_append_self {windows : List (String × List UInt64)} {path : String}
    (hnone : windowIn windows path = none) (window : List UInt64) :
    windowIn (windows ++ [(path, window)]) path = some window := by
  rw [windowIn, List.find?_append, Option.map_eq_none_iff.1 hnone]
  simp

theorem windowIn_append_of_ne (windows : List (String × List UInt64)) {path other : String}
    (hne : other ≠ path) (window : List UInt64) :
    windowIn (windows ++ [(path, window)]) other = windowIn windows other := by
  have hmiss : (path == other) = false := by simpa using Ne.symm hne
  rw [windowIn, windowIn, List.find?_append]
  simp [hmiss]

theorem windowOf_mem {windows : List (String × List UInt64)}
    (hnodup : (windows.map Prod.fst).Nodup) {entry : String × List UInt64}
    (hentry : entry ∈ windows) : windowIn windows entry.1 = some entry.2 := by
  induction windows with
  | nil => cases hentry
  | cons first windows ih =>
      rw [List.map_cons, List.nodup_cons] at hnodup
      rw [windowIn, List.find?_cons]
      rcases List.mem_cons.1 hentry with rfl | hentry
      · simp
      · have hmiss : (first.1 == entry.1) = false := by
          rw [beq_eq_false_iff_ne]
          intro heq
          exact hnodup.1 (heq ▸ List.mem_map_of_mem hentry)
        rw [hmiss]
        exact ih hnodup.2 hentry

theorem mem_paths_remove {windows : List (String × List UInt64)} {path other : String} :
    other ∈ (windows.filter (·.1 != path)).map Prod.fst ↔
      other ∈ windows.map Prod.fst ∧ other ≠ path := by
  simp only [List.mem_map, List.mem_filter, bne_iff_ne]
  constructor
  · rintro ⟨entry, ⟨hentry, hne⟩, rfl⟩
    exact ⟨⟨entry, hentry, rfl⟩, hne⟩
  · rintro ⟨⟨entry, hentry, rfl⟩, hne⟩
    exact ⟨entry, ⟨hentry, hne⟩, rfl⟩

theorem nodup_remove {windows : List (String × List UInt64)}
    (hnodup : (windows.map Prod.fst).Nodup) (path : String) :
    ((windows.filter (·.1 != path)).map Prod.fst).Nodup :=
  hnodup.sublist (List.filter_sublist.map Prod.fst)

/-! ### The history shows the ledger -/

/-- Both collections list the paths of the ledger, and every window is the end of the
records of its path. -/
structure Shows (history : EditHistory) (ledger : Ledger) : Prop where
  order : history.order = ledger.order
  nodup : history.paths.Nodup
  mem_paths_iff : ∀ path, path ∈ history.paths ↔ path ∈ ledger.order
  window : ∀ path ∈ ledger.order,
    history.window? path = some ((ledger.records path).rtake recentWindow)

theorem shows_new : Shows new Table.empty where
  order := rfl
  nodup := List.nodup_nil
  mem_paths_iff _ := Iff.rfl
  window _ hpath := absurd hpath List.not_mem_nil

variable {history : EditHistory} {ledger : Ledger}

namespace Shows

variable (hshows : Shows history ledger)

include hshows

theorem tracks_iff (path : String) : history.tracks path = true ↔ path ∈ ledger.order :=
  EditHistory.tracks_iff.trans (hshows.mem_paths_iff path)

theorem length_byPath : history.byPath.length = ledger.order.length := by
  have hperm : history.paths.Perm ledger.order :=
    (List.perm_ext_iff_of_nodup hshows.nodup ledger.nodup).2 hshows.mem_paths_iff
  rw [← hperm.length_eq, paths, List.length_map]

/-- The window of a path that is not listed is empty, as its records are. -/
theorem ring_eq_rtake (path : String) :
    history.ring path = (ledger.records path).rtake recentWindow := by
  rw [EditHistory.ring_eq]
  by_cases hpath : path ∈ ledger.order
  · rw [hshows.window path hpath, Option.getD_some]
  · have hrecords : ledger.records path = [] := by
      by_contra hsome
      exact hpath ((ledger.mem_order_iff path).2 hsome)
    have hwindow : history.window? path = none := by
      apply windowIn_eq_none.2
      exact fun hmem => hpath ((hshows.mem_paths_iff path).1 hmem)
    rw [hwindow, hrecords, Option.getD_none]
    rfl

/-- Removing a path from both collections forgets it. -/
theorem removed (path : String) :
    Shows ⟨history.byPath.filter (·.1 != path), history.order.filter (· != path)⟩
      (ledger.forget path) where
  order := by
    rw [Table.order_forget, ← hshows.order]
    apply List.filter_congr
    intro other _
    by_cases hsame : other = path
    · simp [hsame]
    · simp [hsame]
  nodup := nodup_remove hshows.nodup path
  mem_paths_iff other := by
    rw [paths, mem_paths_remove, Table.order_forget, List.mem_filter, decide_eq_true_iff]
    exact and_congr_left' (hshows.mem_paths_iff other)
  window other hother := by
    rw [Table.order_forget, List.mem_filter, decide_eq_true_iff] at hother
    rw [Table.records_forget_of_ne _ hother.2, ← hshows.window other hother.1]
    exact windowIn_remove_of_ne _ hother.2

theorem forgotten (path : String) (hpath : path ∉ ledger.order) :
    Shows history (ledger.forget path) where
  order := by
    rw [Table.order_forget, hshows.order, eq_comm, List.filter_eq_self]
    intro other hother
    apply decide_eq_true
    rintro rfl
    exact hpath hother
  nodup := hshows.nodup
  mem_paths_iff other := by
    rw [hshows.mem_paths_iff, Table.order_forget, List.mem_filter, decide_eq_true_iff]
    rw [and_iff_left_of_imp]
    rintro hother rfl
    exact hpath hother
  window other hother := by
    rw [Table.order_forget, List.mem_filter, decide_eq_true_iff] at hother
    rw [Table.records_forget_of_ne _ hother.2]
    exact hshows.window other hother.1

theorem clear (path : String) : Shows (history.clear path) (ledger.forget path) := by
  unfold EditHistory.clear
  split
  · exact hshows.removed path
  · next hkept => exact hshows.forgotten path fun hpath => hkept ((hshows.tracks_iff path).2 hpath)

/-- A path whose window is put in place of the one it had. -/
theorem put {after : Ledger} {path : String} {order : List String} {window : List UInt64}
    (horder : order = after.order)
    (hmem : ∀ other, other ∈ after.order ↔ other ∈ ledger.order ∧ other ≠ path ∨ other = path)
    (hothers : ∀ other ≠ path, after.records other = ledger.records other)
    (hwindow : window = (after.records path).rtake recentWindow) :
    Shows ⟨history.byPath.filter (·.1 != path) ++ [(path, window)], order⟩ after where
  order := horder
  nodup := by
    rw [paths, List.map_append, List.nodup_append]
    refine ⟨nodup_remove hshows.nodup path, List.nodup_singleton _, ?_⟩
    intro first hfirst second hsecond heq
    exact (mem_paths_remove.1 hfirst).2 (heq.trans (List.mem_singleton.1 hsecond))
  mem_paths_iff other := by
    rw [paths, List.map_append, List.mem_append, mem_paths_remove, hmem]
    exact or_congr (and_congr_left' (hshows.mem_paths_iff other)) List.mem_singleton
  window other hother := by
    by_cases hsame : other = path
    · rw [hsame, ← hwindow]
      exact windowIn_append_self (windowIn_remove_self _ path) window
    · rw [hothers other hsame,
        ← hshows.window other (((hmem other).1 hother).resolve_right hsame).1]
      exact (windowIn_append_of_ne _ hsame window).trans (windowIn_remove_of_ne _ hsame)

end Shows

/-! ### Recording -/

/-- Pushing into a full window drops its first fingerprint. -/
theorem rtake_concat {size : ℕ} (hsize : 0 < size) (records : List UInt64)
    (fingerprint : UInt64) :
    (records ++ [fingerprint]).rtake size =
      (if size ≤ (records.rtake size).length then (records.rtake size).tail
        else records.rtake size) ++ [fingerprint] := by
  have hlength : (records.rtake size).length = min size records.length := by
    rw [List.rtake, List.length_drop]
    omega
  rw [hlength]
  by_cases hfull : size ≤ records.length
  · rw [if_pos (by omega), List.rtake, List.rtake, List.tail_drop, List.length_append,
      List.length_singleton, List.drop_append_of_le_length (by omega)]
    congr 2
    omega
  · rw [if_neg (by omega), List.rtake, List.rtake, List.length_append,
      List.length_singleton, Nat.sub_eq_zero_of_le (by omega),
      Nat.sub_eq_zero_of_le (by omega), List.drop_zero, List.drop_zero]

/-- The history with room for a new path. -/
def room (history : EditHistory) : EditHistory :=
  if maxPaths ≤ history.byPath.length then
    match history.order with
    | oldest :: order => ⟨history.byPath.filter (·.1 != oldest), order⟩
    | [] => history
  else history

theorem track_of_untracked {path : String} (hnew : ¬ history.tracks path = true) :
    history.track path = { history.room with order := history.room.order ++ [path] } := by
  rw [track, if_neg hnew]
  rfl

theorem track_of_tracked {path : String} (hold : history.tracks path = true) :
    history.track path = history :=
  if_pos hold

theorem Shows.room (hshows : Shows history ledger) : Shows history.room ledger.room := by
  by_cases hfull : maxPaths ≤ ledger.order.length
  · have hfull' : maxPaths ≤ history.byPath.length := hshows.length_byPath ▸ hfull
    cases horder : ledger.order with
    | nil =>
        rw [horder] at hfull
        exact absurd hfull (by decide)
    | cons oldest rest =>
        have hremoved := hshows.removed oldest
        have hrest : history.order.filter (· != oldest) = rest :=
          hremoved.order.trans (Table.order_forget_oldest horder)
        rw [hrest] at hremoved
        rw [Table.room_of_full hfull horder, EditHistory.room, if_pos hfull',
          hshows.order.trans horder]
        exact hremoved
  · have hlt := Nat.not_le.1 hfull
    rw [Table.room_of_lt hlt, EditHistory.room, if_neg (hshows.length_byPath ▸ hfull)]
    exact hshows

/-- A record shows in the history, and the count is that of its window. -/
theorem Shows.record (hshows : Shows history ledger) (path : String) (fingerprint : UInt64) :
    Shows (history.recordFutile path fingerprint).1 (ledger.record path fingerprint) ∧
      (history.recordFutile path fingerprint).2 =
        (((ledger.record path fingerprint).records path).rtake recentWindow).count
          fingerprint := by
  have hsize : 0 < recentWindow := by decide
  by_cases hpath : path ∈ ledger.order
  · have htracked := (hshows.tracks_iff path).2 hpath
    have hrecords : (ledger.record path fingerprint).records path =
        ledger.records path ++ [fingerprint] := by
      rw [Table.record, dif_pos hpath]
      exact Function.update_self ..
    have hring : (if recentWindow ≤ (history.ring path).length then
          (history.ring path).tail else history.ring path) ++ [fingerprint] =
        ((ledger.record path fingerprint).records path).rtake recentWindow := by
      rw [hrecords, rtake_concat hsize, hshows.ring_eq_rtake]
    rw [recordFutile, track_of_tracked htracked]
    refine ⟨?_, congrArg (List.count fingerprint) hring⟩
    apply hshows.put _ _ _ hring
    · rw [hshows.order, Table.record, dif_pos hpath]
      rfl
    · intro other
      rw [Table.record, dif_pos hpath]
      by_cases hother : other = path
      · rw [hother]
        exact iff_of_true hpath (.inr rfl)
      · simp [Table.extend, hother]
    · intro other hother
      rw [Table.record, dif_pos hpath]
      exact Function.update_of_ne hother ..
  · have hnew : ¬ history.tracks path = true := fun hold =>
      hpath ((hshows.tracks_iff path).1 hold)
    have hroom := hshows.room
    have hout := Table.not_mem_room hpath
    have hnone : ledger.room.records path = [] := by
      by_contra hsome
      exact hout ((ledger.room.mem_order_iff path).2 hsome)
    have hrecords : (ledger.record path fingerprint).records path = [fingerprint] := by
      rw [Table.record, dif_neg hpath]
      exact Function.update_self ..
    have hring : (if recentWindow ≤ (history.room.ring path).length then
          (history.room.ring path).tail else history.room.ring path) ++ [fingerprint] =
        ((ledger.record path fingerprint).records path).rtake recentWindow := by
      have hend := rtake_concat hsize (ledger.room.records path) fingerprint
      rw [hrecords, hroom.ring_eq_rtake, ← hend, hnone, List.nil_append]
    rw [recordFutile, track_of_untracked hnew]
    refine ⟨?_, congrArg (List.count fingerprint) hring⟩
    apply hroom.put _ _ _ hring
    · simp only [hroom.order, Table.record, dif_neg hpath]
      rfl
    · intro other
      rw [Table.record, dif_neg hpath]
      by_cases hother : other = path
      · simp [Table.enter, hother]
      · simp [Table.enter, hother]
    · intro other hother
      rw [Table.record, dif_neg hpath]
      exact Function.update_of_ne hother ..

/-- What one operation preserves. -/
theorem shows_step (hshows : Shows history ledger) (event : Event String UInt64) :
    Shows (step history event) (RecentTable.step ledger event) := by
  cases event with
  | record path fingerprint => exact (hshows.record path fingerprint).1
  | forget path => exact hshows.clear path

theorem shows_run (events : List (Event String UInt64)) :
    Shows (Run.run step new events) (Run.run RecentTable.step Table.empty events) := by
  have hany : Run.Meets step (fun _ _ => True) new events :=
    Run.meets_of_forall (fun _ _ _ => trivial) _
  have hstep : ∀ (history : EditHistory) (ledger : Ledger) (event : Event String UInt64),
      Shows history ledger → True →
        Shows (step history event) (RecentTable.step ledger event) :=
    fun _ _ event hshows _ => shows_step hshows event
  exact Run.simulation_of_meets hstep shows_new hany

/-! ### What an operation leaves alone -/

/-- An operation on a path keeps the windows of the others and their order, or it is the
first record of the path in a full table and evicts the path that was recorded first. -/
inductive Touches (before : EditHistory) (path : String) (after : EditHistory) : Prop where
  | only (hwindows : ∀ other ≠ path, after.window? other = before.window? other)
      (horder : after.order.filter (· ≠ path) = before.order.filter (· ≠ path))
  | evicts (oldest : String) (rest : List String) (hnew : path ∉ before.order)
      (hfull : before.byPath.length = maxPaths) (holdest : before.order = oldest :: rest)
      (hgone : after.window? oldest = none) (horder : after.order = rest ++ [path])
      (hwindows : ∀ other ≠ path, other ≠ oldest → after.window? other = before.window? other)

theorem touches_clear (history : EditHistory) (path : String) :
    Touches history path (history.clear path) := by
  unfold EditHistory.clear
  split
  · apply Touches.only
    · exact fun other hother => windowIn_remove_of_ne _ hother
    · rw [List.filter_filter]
      congr 1
      funext other
      simp [bne]
  · exact .only (fun _ _ => rfl) rfl

theorem touches_record (hshows : Shows history ledger) (path : String)
    (fingerprint : UInt64) :
    Touches history path (history.recordFutile path fingerprint).1 := by
  by_cases hold : history.tracks path = true
  · rw [recordFutile, track_of_tracked hold]
    apply Touches.only
    · intro other hother
      exact (windowIn_append_of_ne _ hother _).trans (windowIn_remove_of_ne _ hother)
    · rfl
  · have hnew : path ∉ history.order := by
      rw [hshows.order]
      exact fun hmem => hold ((hshows.tracks_iff path).2 hmem)
    rw [recordFutile, track_of_untracked hold]
    by_cases hfull : maxPaths ≤ history.byPath.length
    · have hlength : history.byPath.length = maxPaths := by
        apply Nat.le_antisymm _ hfull
        rw [hshows.length_byPath]
        exact ledger.length_le
      cases horder : history.order with
      | nil =>
          rw [hshows.length_byPath, ← hshows.order, horder] at hfull
          exact absurd hfull (by decide)
      | cons oldest rest =>
          have hroom : history.room =
              ⟨history.byPath.filter (·.1 != oldest), rest⟩ := by
            rw [room, if_pos hfull, horder]
          have holdest : oldest ≠ path := by
            rintro rfl
            exact hnew (horder ▸ List.mem_cons_self)
          rw [hroom]
          apply Touches.evicts oldest rest hnew hlength horder
          · have hgone := windowIn_remove_of_ne
              (history.byPath.filter (·.1 != oldest)) holdest
            exact (windowIn_append_of_ne _ holdest _).trans
              (hgone.trans (windowIn_remove_self _ oldest))
          · rfl
          · intro other hother hkept
            exact (windowIn_append_of_ne _ hother _).trans
              ((windowIn_remove_of_ne _ hother).trans (windowIn_remove_of_ne _ hkept))
    · rw [room, if_neg hfull]
      apply Touches.only
      · intro other hother
        exact (windowIn_append_of_ne _ hother _).trans (windowIn_remove_of_ne _ hother)
      · simp

/-! ### Every run -/

/-- The path of an operation. -/
def pathOf : Event String UInt64 → String
  | .record path _ => path
  | .forget path => path

/-- The two collections stay in step within their bounds, a record counts its
fingerprint in the end of what the ledger remembers of the path, and an operation touches
another path only to evict it. -/
theorem history_consistent (events : List (Event String UInt64)) :
    let history := Run.run step new events
    let ledger : Ledger := Run.run RecentTable.step Table.empty events
    ((∀ path, path ∈ history.order ↔ path ∈ history.paths) ∧ history.order.Nodup ∧
      history.paths.Nodup) ∧
    (history.byPath.length ≤ maxPaths ∧
      ∀ entry ∈ history.byPath, entry.2.length ≤ recentWindow) ∧
    (∀ path fingerprint, (history.recordFutile path fingerprint).2 =
      (((ledger.record path fingerprint).records path).rtake recentWindow).count
        fingerprint) ∧
    ∀ event, Touches history (pathOf event) (step history event) := by
  intro history ledger
  have hshows : Shows history ledger := shows_run events
  refine ⟨⟨?_, ?_, hshows.nodup⟩, ⟨?_, ?_⟩, ?_, ?_⟩
  · intro path
    rw [hshows.order, hshows.mem_paths_iff]
  · rw [hshows.order]
    exact ledger.nodup
  · rw [hshows.length_byPath]
    exact ledger.length_le
  · intro entry hentry
    have hpath : entry.1 ∈ ledger.order :=
      (hshows.mem_paths_iff entry.1).1 (List.mem_map_of_mem hentry)
    have hwindow := hshows.window entry.1 hpath
    rw [window?, windowOf_mem hshows.nodup hentry] at hwindow
    rw [Option.some.inj hwindow, List.rtake, List.length_drop]
    omega
  · exact fun path fingerprint => (hshows.record path fingerprint).2
  · intro event
    cases event with
    | record path fingerprint => exact touches_record hshows path fingerprint
    | forget path => exact touches_clear history path

end Kitaebot.FileEdit.EditHistory
