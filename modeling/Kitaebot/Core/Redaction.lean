import Mathlib.Data.List.Basic

/-!
# Redaction by successive replacement

A pass replaces each of its matches by a marker.  Several passes run one after
another, each on what the earlier ones left.  The original cells are listed with
a flag that tells whether they are gone; a content is a cut of that list when it
keeps the cells that are left and has a marker wherever some are gone.  A pass
whose matches do not reach into markers keeps the content a cut.
-/

namespace Kitaebot.Redaction

variable {Cell : Type*}

/-- Replace every match, left to right; `skip` cells belong to the last one. -/
def replaceAll (find : List Cell → Option ℕ) (marker : List Cell) :
    ℕ → List Cell → List Cell
  | _, [] => []
  | skip + 1, _ :: rest => replaceAll find marker skip rest
  | 0, cell :: rest =>
      match find (cell :: rest) with
      | some (count + 1) => marker ++ replaceAll find marker count rest
      | _ => cell :: replaceAll find marker 0 rest

/-- The matches, left to right. -/
def slices (find : List Cell → Option ℕ) : ℕ → List Cell → List (List Cell)
  | _, [] => []
  | skip + 1, _ :: rest => slices find skip rest
  | 0, cell :: rest =>
      match find (cell :: rest) with
      | some (count + 1) => (cell :: rest.take count) :: slices find count rest
      | _ => slices find 0 rest

/-- A cell and whether it is gone. -/
abbrev Entry (Cell : Type*) := Cell × Bool

def cells (entries : List (Entry Cell)) : List Cell := entries.map Prod.fst

def kept (cells : List Cell) : List (Entry Cell) := cells.map fun cell => (cell, false)

def gone (cells : List Cell) : List (Entry Cell) := cells.map fun cell => (cell, true)

/-- Flag the cells of every match. -/
def strike (find : List Cell → Option ℕ) :
    ℕ → List (Entry Cell) → List (Entry Cell)
  | _, [] => []
  | skip + 1, entry :: rest => (entry.1, true) :: strike find skip rest
  | 0, entry :: rest =>
      match find (entry.1 :: cells rest) with
      | some (count + 1) => (entry.1, true) :: strike find count rest
      | _ => entry :: strike find 0 rest

/-- The matches with the flags of their cells. -/
def flagged (find : List Cell → Option ℕ) (entries : List (Entry Cell)) :
    List (List (Entry Cell)) :=
  slices (fun entries => find (cells entries)) 0 entries

/-- How far it is to the first closing match, or to the end. -/
def upTo (closing : List Cell → Option ℕ) : List Cell → ℕ
  | [] => 0
  | cell :: rest =>
      match closing (cell :: rest) with
      | some _ => 0
      | none => upTo closing rest + 1

/-- How far it is to the end of the first closing match, or to the end. -/
def closeAt (closing : List Cell → Option ℕ) : List Cell → ℕ
  | [] => 0
  | cell :: rest =>
      match closing (cell :: rest) with
      | some count => count
      | none => closeAt closing rest + 1

/-! ## Skipping -/

section Skip

variable (find : List Cell → Option ℕ)

theorem replaceAll_skip (marker : List Cell) (skip : ℕ) (content : List Cell) :
    replaceAll find marker skip content =
      replaceAll find marker 0 (content.drop skip) := by
  induction skip generalizing content with
  | zero => rfl
  | succ skip ih =>
      cases content with
      | nil => rfl
      | cons cell rest => exact ih rest

theorem slices_skip (skip : ℕ) (content : List Cell) :
    slices find skip content = slices find 0 (content.drop skip) := by
  induction skip generalizing content with
  | zero => rfl
  | succ skip ih =>
      cases content with
      | nil => rfl
      | cons cell rest => exact ih rest

theorem strike_add (first second : ℕ) (entries : List (Entry Cell)) :
    strike find (first + second) entries =
      gone (cells (entries.take first)) ++
        strike find second (entries.drop first) := by
  induction first generalizing entries with
  | zero => rw [Nat.zero_add]; rfl
  | succ first ih =>
      cases entries with
      | nil => cases second <;> rfl
      | cons entry rest =>
          rw [Nat.add_right_comm, strike, ih rest]
          rfl

theorem cells_strike (skip : ℕ) (entries : List (Entry Cell)) :
    cells (strike find skip entries) = cells entries := by
  induction entries generalizing skip with
  | nil => cases skip <;> rfl
  | cons entry rest ih =>
      cases skip with
      | succ skip => exact congrArg (entry.1 :: ·) (ih skip)
      | zero =>
          rw [strike]
          split
          · next count _ => exact congrArg (entry.1 :: ·) (ih count)
          · exact congrArg (entry.1 :: ·) (ih 0)

/-- A pass keeps what is gone. -/
theorem gone_strike {cell : Cell} {skip : ℕ} {entries : List (Entry Cell)}
    (hgone : (cell, true) ∈ entries) :
    (cell, true) ∈ strike find skip entries := by
  induction entries generalizing skip with
  | nil => cases hgone
  | cons entry rest ih =>
      rcases List.mem_cons.mp hgone with rfl | hrest
      · cases skip with
        | succ skip => exact List.mem_cons_self
        | zero =>
            rw [strike]
            split
            · exact List.mem_cons_self
            · exact List.mem_cons_self
      · cases skip with
        | succ skip => exact List.mem_cons_of_mem _ (ih hrest)
        | zero =>
            rw [strike]
            split
            · exact List.mem_cons_of_mem _ (ih hrest)
            · exact List.mem_cons_of_mem _ (ih hrest)

theorem gone_skip {cell : Cell} {skip : ℕ} {entries : List (Entry Cell)}
    (hcell : cell ∈ cells (entries.take skip)) :
    (cell, true) ∈ strike find skip entries := by
  have hsplit := strike_add find skip 0 entries
  rw [Nat.add_zero] at hsplit
  rw [hsplit]
  exact List.mem_append_left _ (List.mem_map.mpr ⟨cell, hcell, rfl⟩)

/-- The cells of every match are gone after the pass. -/
theorem gone_of_mem_slices {entries : List (Entry Cell)} {skip : ℕ}
    {slice : List Cell} (hslice : slice ∈ slices find skip (cells entries))
    {cell : Cell} (hcell : cell ∈ slice) :
    (cell, true) ∈ strike find skip entries := by
  induction entries generalizing skip with
  | nil => cases skip <;> cases hslice
  | cons entry rest ih =>
      cases skip with
      | succ skip => exact List.mem_cons_of_mem _ (ih hslice)
      | zero =>
          change slice ∈ slices find 0 (entry.1 :: cells rest) at hslice
          rw [slices] at hslice
          rw [strike]
          split at hslice
          · next count _ =>
              rcases List.mem_cons.mp hslice with rfl | hrest
              · rcases List.mem_cons.mp hcell with rfl | htail
                · exact List.mem_cons_self
                · rw [cells, ← List.map_take] at htail
                  exact List.mem_cons_of_mem _ (gone_skip find htail)
              · exact List.mem_cons_of_mem _ (ih hrest)
          · exact List.mem_cons_of_mem _ (ih hslice)

end Skip

/-! ## Cuts -/

/-- What is left of the entries, with markers for what is gone; `inside` tells
whether the cell before is gone. -/
inductive Cut (Marker : List Cell → Prop) :
    Bool → List (Entry Cell) → List Cell → Prop
  | nil {inside} : Cut Marker inside [] []
  | keep {inside cell entries content} (hrest : Cut Marker false entries content) :
      Cut Marker inside ((cell, false) :: entries) (cell :: content)
  | enter {inside cell entries marker content} (hmarker : Marker marker)
      (hrest : Cut Marker true entries content) :
      Cut Marker inside ((cell, true) :: entries) (marker ++ content)
  | stay {cell entries content} (hrest : Cut Marker true entries content) :
      Cut Marker true ((cell, true) :: entries) content

namespace Cut

variable {Marker : List Cell → Prop}

theorem all_kept (content : List Cell) : Cut Marker false (kept content) content := by
  induction content with
  | nil => exact .nil
  | cons cell content ih => exact .keep ih

theorem all_gone {entries : List (Entry Cell)} {content : List Cell}
    (hrest : Cut Marker true entries content) (struck : List Cell) :
    Cut Marker true (gone struck ++ entries) content := by
  induction struck with
  | nil => exact hrest
  | cons cell struck ih => exact .stay ih

/-- The cells up to the first one that is gone. -/
theorem stretch {inside : Bool} {entries : List (Entry Cell)}
    {content : List Cell} (hcut : Cut Marker inside entries content)
    (hinside : inside = false) :
    ∃ front tail rest, entries = kept front ++ tail ∧ content = front ++ rest ∧
      Cut Marker false tail rest ∧
      ((tail = [] ∧ rest = []) ∨
        (∃ cell others, tail = (cell, true) :: others) ∧
          ∃ marker after, Marker marker ∧ rest = marker ++ after) := by
  induction hcut with
  | nil => exact ⟨[], [], [], rfl, rfl, .nil, .inl ⟨rfl, rfl⟩⟩
  | @keep _ cell entries content hrest ih =>
      obtain ⟨front, tail, rest, rfl, rfl, hcut, hend⟩ := ih rfl
      exact ⟨cell :: front, tail, rest, rfl, rfl, hcut, hend⟩
  | @enter _ cell entries marker content hmarker hrest _ =>
      exact ⟨[], _, _, rfl, rfl, .enter hmarker hrest,
        .inr ⟨⟨cell, entries, rfl⟩, marker, content, hmarker, rfl⟩⟩
  | stay _ _ => cases hinside

theorem kept_append {tail : List (Entry Cell)} {rest : List Cell}
    (hcut : Cut Marker false tail rest) (front : List Cell) :
    Cut Marker false (kept front ++ tail) (front ++ rest) := by
  induction front with
  | nil => exact hcut
  | cons cell front ih => exact .keep ih

theorem drop_front {front rest : List Cell} {tail : List (Entry Cell)}
    (hcut : Cut Marker false tail rest) {count : ℕ} (hcount : count ≤ front.length) :
    Cut Marker false ((kept front ++ tail).drop count)
      ((front ++ rest).drop count) := by
  have hdrop : (kept front).drop count = kept (front.drop count) := by
    rw [kept, kept, List.map_drop]
  rw [List.drop_append_of_le_length (by simpa [kept] using hcount),
    List.drop_append_of_le_length hcount, hdrop]
  exact hcut.kept_append _

/-- Cells that are left lie before the first marker. -/
theorem le_front {front : List Cell} {tail : List (Entry Cell)} {count : ℕ}
    (htail : tail = [] ∨ ∃ cell others, tail = (cell, true) :: others)
    (hlength : count ≤ (kept front ++ tail).length)
    (hkept : ∀ entry ∈ (kept front ++ tail).take count, entry.2 = false) :
    count ≤ front.length := by
  by_contra hlong
  rcases htail with rfl | ⟨other, others, rfl⟩
  · simp [kept] at hlength
    omega
  · obtain ⟨extra, hextra⟩ : ∃ extra, count = front.length + (extra + 1) :=
      ⟨count - front.length - 1, by omega⟩
    have hmem : (other, true) ∈
        (kept front ++ (other, true) :: others).take count := by
      rw [hextra, List.take_append, kept, List.length_map]
      simp
    cases hkept _ hmem

/-- A content that survives holds only cells that are not gone. -/
theorem mem_of_content {inside : Bool} {entries : List (Entry Cell)}
    {content : List Cell} (hcut : Cut Marker inside entries content)
    {cell : Cell} (hcell : cell ∈ content)
    (hmarker : ∀ marker, Marker marker → cell ∉ marker) :
    (cell, false) ∈ entries := by
  induction hcut with
  | nil => cases hcell
  | @keep _ other entries content _ ih =>
      rcases List.mem_cons.mp hcell with rfl | hrest
      · exact List.mem_cons_self
      · exact List.mem_cons_of_mem _ (ih hrest)
  | @enter _ other entries marker content hmarked _ ih =>
      rcases List.mem_append.mp hcell with hmark | hrest
      · exact absurd hmark (hmarker marker hmarked)
      · exact List.mem_cons_of_mem _ (ih hrest)
  | stay _ ih => exact List.mem_cons_of_mem _ (ih hcell)

end Cut

/-! ## Passes that respect cuts -/

/-- The pass finds nothing new in a cut, and it finds what is left of each of
its matches whose flags are intact. -/
structure Tracks (Marker : List Cell → Prop) (find : List Cell → Option ℕ)
    (Intact : List (Entry Cell) → Prop) : Prop where
  positive : ∀ content, find content ≠ some 0
  marker : ∀ before after rest, Marker (before ++ after) → after ≠ [] →
    find (after ++ rest) = none
  silent : ∀ cell entries content, Cut Marker false entries content →
    find (cell :: cells entries) = none → find (cell :: content) = none
  follows : ∀ cell entries content count, Cut Marker false entries content →
    find (cell :: cells entries) = some (count + 1) →
    Intact ((cell, false) :: entries.take count) →
    ∃ length reach inside, find (cell :: content) = some (length + 1) ∧
      reach ≤ count ∧
      Cut Marker inside (entries.drop reach) (content.drop length) ∧
      ∀ entry ∈ (entries.take count).drop reach, entry.2 = true
  all_gone : ∀ cell entries, Intact ((cell, true) :: entries) →
    ∀ entry ∈ entries, entry.2 = true

section Pass

variable {Marker : List Cell → Prop} {find : List Cell → Option ℕ}
  {Intact : List (Entry Cell) → Prop}

theorem replaceAll_append (htracks : Tracks Marker find Intact)
    (replacement before : List Cell) {marker : List Cell}
    (hmarker : Marker (before ++ marker)) (content : List Cell) :
    replaceAll find replacement 0 (marker ++ content) =
      marker ++ replaceAll find replacement 0 content := by
  induction marker generalizing before with
  | nil => rfl
  | cons cell marker ih =>
      have hnone := htracks.marker before (cell :: marker) content hmarker
        (List.cons_ne_nil cell marker)
      rw [List.cons_append] at hnone ⊢
      rw [replaceAll, hnone]
      have hrest : Marker ((before ++ [cell]) ++ marker) := by
        rwa [List.append_assoc, List.singleton_append]
      exact congrArg (cell :: ·) (ih (before ++ [cell]) hrest)

/-- A pass leaves a cell that is gone as it is, and the cells of its match with
it. -/
theorem strike_gone (htracks : Tracks Marker find Intact) {skip : ℕ} {cell : Cell}
    {entries : List (Entry Cell)}
    (hskip : ∀ entry ∈ ((cell, true) :: entries).take skip, entry.2 = true)
    (hintact : ∀ slice ∈ slices (fun entries => find (cells entries)) skip
      ((cell, true) :: entries), Intact slice) :
    ∃ next, strike find skip ((cell, true) :: entries) =
        (cell, true) :: strike find next entries ∧
      (∀ entry ∈ entries.take next, entry.2 = true) ∧
      ∀ slice ∈ slices (fun entries => find (cells entries)) next entries,
        Intact slice := by
  cases skip with
  | succ skip =>
      exact ⟨skip, rfl, fun entry hentry =>
        hskip entry (List.mem_cons_of_mem _ hentry), hintact⟩
  | zero =>
      rw [slices] at hintact
      rw [strike]
      split at hintact
      · next count hfind =>
          change find (cell :: cells entries) = some (count + 1) at hfind
          rw [hfind]
          exact ⟨count, rfl,
            htracks.all_gone cell _ (hintact _ List.mem_cons_self),
            fun slice hslice => hintact slice (List.mem_cons_of_mem _ hslice)⟩
      · next hnone =>
          refine ⟨0, ?_, by simp, hintact⟩
          split
          · next count hfind => exact absurd hfind (hnone count)
          · rfl

/-- A pass takes a cut of what was left to a cut of what it leaves. -/
theorem cut_strike (htracks : Tracks Marker find Intact) {replacement : List Cell}
    (hreplacement : Marker replacement) {bound : ℕ}
    {entries : List (Entry Cell)} (hbound : entries.length ≤ bound)
    {content : List Cell} {inside after : Bool} {skip : ℕ}
    (hcut : Cut Marker inside entries content)
    (hinside : inside = true → after = true) (hafter : 0 < skip → after = true)
    (hskip : ∀ entry ∈ entries.take skip, entry.2 = true)
    (hintact : ∀ slice ∈ slices (fun entries => find (cells entries)) skip entries,
      Intact slice) :
    Cut Marker after (strike find skip entries)
      (replaceAll find replacement 0 content) := by
  induction bound generalizing entries content inside after skip with
  | zero =>
      obtain rfl := List.eq_nil_of_length_eq_zero (Nat.le_zero.mp hbound)
      cases hcut
      cases skip <;> exact .nil
  | succ bound ih =>
      cases hcut with
      | nil => cases skip <;> exact .nil
      | @enter _ cell entries marker content hmarker hrest =>
          obtain ⟨next, hstrike, hnext, hslices⟩ :=
            strike_gone htracks hskip hintact
          rw [hstrike, replaceAll_append htracks replacement [] hmarker]
          exact .enter hmarker (ih (Nat.le_of_succ_le_succ hbound) hrest
            (fun _ => rfl) (fun _ => rfl) hnext hslices)
      | @stay cell entries content hrest =>
          obtain ⟨next, hstrike, hnext, hslices⟩ :=
            strike_gone htracks hskip hintact
          rw [hstrike, hinside rfl]
          exact .stay (ih (Nat.le_of_succ_le_succ hbound) hrest
            (fun _ => rfl) (fun _ => rfl) hnext hslices)
      | @keep _ cell entries content hrest =>
          have hzero : skip = 0 := by
            cases skip with
            | zero => rfl
            | succ skip =>
                have hflag := hskip (cell, false) List.mem_cons_self
                cases hflag
          subst hzero
          rw [slices] at hintact
          rw [strike, replaceAll]
          split at hintact
          · next count hfind =>
              change find (cell :: cells entries) = some (count + 1) at hfind
              obtain ⟨length, reach, within, hcontent, hreach, hdrop, hflags⟩ :=
                htracks.follows cell entries content count hrest hfind
                  (hintact _ List.mem_cons_self)
              have hsum : count = reach + (count - reach) := by omega
              have hlength : (entries.drop reach).length ≤ bound := by
                have hle := Nat.le_of_succ_le_succ hbound
                rw [List.length_drop]
                omega
              have hslices : ∀ slice ∈ slices (fun entries => find (cells entries))
                  (count - reach) (entries.drop reach), Intact slice := by
                intro slice hslice
                refine hintact slice (List.mem_cons_of_mem _ ?_)
                rw [slices_skip] at hslice ⊢
                rwa [List.drop_drop, ← hsum] at hslice
              have hgone : ∀ entry ∈ (entries.drop reach).take (count - reach),
                  entry.2 = true := by
                rw [← List.drop_take]
                exact hflags
              have hlater := ih hlength hdrop (fun _ => rfl) (fun _ => rfl) hgone
                hslices
              simp only [hfind, hcontent]
              rw [replaceAll_skip, hsum, strike_add]
              exact .enter hreplacement (hlater.all_gone _)
          · next hnone =>
              have hfind : find (cell :: cells entries) = none := by
                cases hfind : find (cell :: cells entries) with
                | none => rfl
                | some total =>
                    cases total with
                    | zero => exact absurd hfind (htracks.positive _)
                    | succ count => exact absurd hfind (hnone count)
              simp only [hfind, htracks.silent cell entries content hrest hfind]
              exact .keep (ih (Nat.le_of_succ_le_succ hbound) hrest
                nofun nofun (by simp) hintact)

end Pass

/-! ## Passes that stop at markers -/

/-- What the pass finds in front of a marker depends on the cells up to it, and
it finds nothing that starts in a marker. -/
structure Walled (Marker : List Cell → Prop) (find : List Cell → Option ℕ) :
    Prop where
  positive : ∀ content, find content ≠ some 0
  le_length : ∀ content count, find content = some count → count ≤ content.length
  none_append : ∀ front rest, find (front ++ rest) = none → find front = none
  some_append : ∀ front rest count, find (front ++ rest) = some count →
    count ≤ front.length → find front = some count
  wall : ∀ front marker rest, Marker marker →
    find (front ++ (marker ++ rest)) = find front
  marker : ∀ before after rest, Marker (before ++ after) → after ≠ [] →
    find (after ++ rest) = none

/-- What is left of a match is its front, which is nothing or a match too. -/
def Leaves (find : List Cell → Option ℕ) (slice : List (Entry Cell)) : Prop :=
  ∃ front back, slice = kept front ++ gone back ∧
    (front = [] ∨ find front = some front.length)

@[simp]
theorem cells_cons (entry : Entry Cell) (rest : List (Entry Cell)) :
    cells (entry :: rest) = entry.1 :: cells rest := rfl

theorem cells_take (count : ℕ) (entries : List (Entry Cell)) :
    cells (entries.take count) = (cells entries).take count := List.map_take

theorem cells_drop (count : ℕ) (entries : List (Entry Cell)) :
    cells (entries.drop count) = (cells entries).drop count := List.map_drop

@[simp]
theorem length_cells (entries : List (Entry Cell)) :
    (cells entries).length = entries.length := List.length_map ..

theorem cells_append (first second : List (Entry Cell)) :
    cells (first ++ second) = cells first ++ cells second := by
  rw [cells, List.map_append]
  rfl

@[simp]
theorem cells_kept (content : List Cell) : cells (kept content) = content := by
  simp [cells, kept, Function.comp_def]

@[simp]
theorem cells_gone (content : List Cell) : cells (gone content) = content := by
  simp [cells, gone, Function.comp_def]

theorem kept_unique {first second : List Cell} {gone kin : Cell}
    {rest others : List (Entry Cell)}
    (heq : kept first ++ (gone, true) :: rest = kept second ++ (kin, true) :: others) :
    first = second := by
  induction first generalizing second with
  | nil =>
      cases second with
      | nil => rfl
      | cons cell second =>
          have hhead := (List.cons.inj heq).1
          cases congrArg Prod.snd hhead
  | cons cell first ih =>
      cases second with
      | nil =>
          have hhead := (List.cons.inj heq).1
          cases congrArg Prod.snd hhead
      | cons other second =>
          obtain ⟨hhead, htail⟩ := List.cons.inj heq
          have hcell : cell = other := congrArg Prod.fst hhead
          rw [hcell, ih htail]

section Walled

variable {Marker : List Cell → Prop} {find : List Cell → Option ℕ}

/-- A pass reads a cut up to the first marker. -/
theorem Walled.find_cut (hwalled : Walled Marker find) {front rest : List Cell}
    {tail : List (Entry Cell)}
    (hend : (tail = [] ∧ rest = []) ∨
      (∃ cell others, tail = (cell, true) :: others) ∧
        ∃ marker after, Marker marker ∧ rest = marker ++ after) :
    find (front ++ rest) = find front := by
  rcases hend with ⟨_, rfl⟩ | ⟨_, marker, after, hmarker, rfl⟩
  · rw [List.append_nil]
  · exact hwalled.wall front marker after hmarker

theorem Walled.silent (hwalled : Walled Marker find) {cell : Cell}
    {entries : List (Entry Cell)} {content : List Cell}
    (hcut : Cut Marker false entries content)
    (hnone : find (cell :: cells entries) = none) : find (cell :: content) = none := by
  obtain ⟨front, tail, rest, rfl, rfl, _, hend⟩ := hcut.stretch rfl
  rw [cells_append, cells_kept, ← List.cons_append] at hnone
  rw [← List.cons_append, hwalled.find_cut hend]
  exact hwalled.none_append _ _ hnone

theorem Walled.tracks (hwalled : Walled Marker find) :
    Tracks Marker find (Leaves find) where
  positive := hwalled.positive
  marker := hwalled.marker
  silent := fun _ _ _ => hwalled.silent
  follows := by
    intro cell entries content count hcut hfind hleaves
    obtain ⟨front, tail, rest, rfl, rfl, htail, hend⟩ := hcut.stretch rfl
    have hread : find (cell :: (front ++ rest)) = find (cell :: front) := by
      rw [← List.cons_append, hwalled.find_cut hend]
    rw [hread]
    obtain ⟨left, back, hslice, hleft⟩ := hleaves
    cases back with
    | nil =>
        -- the whole match is left, so it lies before the first marker
        have hflags : ∀ entry ∈ (kept front ++ tail).take count, entry.2 = false := by
          intro entry hentry
          have hmem : entry ∈ kept left ++ gone [] := by
            rw [← hslice]
            exact List.mem_cons_of_mem _ hentry
          rw [gone, List.map_nil, List.append_nil] at hmem
          obtain ⟨_, _, rfl⟩ := List.mem_map.mp hmem
          rfl
        have hle := hwalled.le_length _ _ hfind
        have hcount : count ≤ front.length := by
          refine Cut.le_front (hend.imp And.left And.left) ?_ hflags
          simpa [cells] using hle
        refine ⟨count, count, false, ?_, Nat.le_refl count, htail.drop_front hcount,
          ?_⟩
        · rw [cells_append, cells_kept, ← List.cons_append] at hfind
          exact hwalled.some_append _ _ _ hfind (Nat.succ_le_succ hcount)
        · intro entry hentry
          rw [List.drop_take, Nat.sub_self, List.take_zero] at hentry
          cases hentry
    | cons lost back =>
        -- what is left of the match ends at the first marker
        have hwhole : kept (cell :: front) ++ tail = kept left ++
            (lost, true) :: (gone back ++ (kept front ++ tail).drop count) := by
          have hsplit := List.take_append_drop count (kept front ++ tail)
          have hcons : kept (cell :: front) ++ tail =
              (cell, false) :: (kept front ++ tail) := rfl
          rw [hcons]
          nth_rewrite 1 [← hsplit]
          rw [← List.cons_append, hslice, List.append_assoc]
          rfl
        obtain rfl : left = cell :: front := by
          rcases hend with ⟨rfl, _⟩ | ⟨⟨other, others, rfl⟩, _⟩
          · have hmem : (lost, true) ∈ kept (cell :: front) ++ [] := by
              rw [hwhole]
              simp
            simp [kept] at hmem
          · exact (kept_unique hwhole).symm
        have hlength := congrArg List.length hslice
        simp only [List.length_cons, List.length_append, kept, gone,
          List.length_map] at hlength
        have htake := List.length_take_le count (kept front ++ tail)
        refine ⟨front.length, front.length, false, ?_, ?_, ?_, ?_⟩
        · exact hleft.resolve_left (List.cons_ne_nil cell front)
        · simp only [kept] at htake
          omega
        · rw [List.drop_left' (by simp [kept]), List.drop_left]
          exact htail
        · intro entry hentry
          have hback := congrArg (List.drop (front.length + 1)) hslice
          rw [List.drop_succ_cons, List.drop_left' (by simp [kept])] at hback
          rw [hback] at hentry
          obtain ⟨_, _, rfl⟩ := List.mem_map.mp hentry
          rfl
  all_gone := by
    intro cell entries hleaves entry hentry
    obtain ⟨front, back, hslice, _⟩ := hleaves
    cases front with
    | cons other front =>
        have hhead := congrArg Prod.snd (List.cons.inj hslice).1
        cases hhead
    | nil =>
        have hmem : entry ∈ gone back := by
          rw [kept, List.map_nil, List.nil_append] at hslice
          rw [← hslice]
          exact List.mem_cons_of_mem _ hentry
        obtain ⟨_, _, rfl⟩ := List.mem_map.mp hmem
        rfl

end Walled

/-! ## Passes from an opening to a closing match -/

/-- From an opening match to the end of the next closing one, or to the end. -/
def bracket (opening closing : List Cell → Option ℕ) (content : List Cell) :
    Option ℕ :=
  (opening content).map fun count => count + closeAt closing (content.drop count)

/-- Nothing is left of a match, or its opening and its closing are. -/
def Held (opening closing : List Cell → Option ℕ) (slice : List (Entry Cell)) :
    Prop :=
  (∀ entry ∈ slice, entry.2 = true) ∨
    ∃ head body tail, slice = kept head ++ (body ++ kept tail) ∧
      opening (cells slice) = some head.length ∧
      upTo closing (cells body ++ tail) = body.length

section Bracket

variable {Marker : List Cell → Prop} {opening closing : List Cell → Option ℕ}

theorem closeAt_le (hclosing : Walled Marker closing) (content : List Cell) :
    closeAt closing content ≤ content.length := by
  induction content with
  | nil => exact Nat.le_refl 0
  | cons cell content ih =>
      rw [closeAt]
      cases hfind : closing (cell :: content) with
      | some count => exact hclosing.le_length _ _ hfind
      | none => exact Nat.succ_le_succ ih

/-- The first closing match lies before the end that is read. -/
theorem upTo_take (hclosing : Walled Marker closing) (content : List Cell) :
    upTo closing (content.take (closeAt closing content)) =
      upTo closing content := by
  induction content with
  | nil => rfl
  | cons cell content ih =>
      rw [closeAt, upTo]
      cases hfind : closing (cell :: content) with
      | some count =>
          obtain ⟨total, rfl⟩ : ∃ total, count = total + 1 := by
            cases count with
            | zero => exact absurd hfind (hclosing.positive _)
            | succ total => exact ⟨total, rfl⟩
          have hlength : total + 1 ≤ ((cell :: content).take (total + 1)).length := by
            rw [List.length_take]
            exact Nat.le_min.mpr ⟨Nat.le_refl _, hclosing.le_length _ _ hfind⟩
          rw [← List.take_append_drop (total + 1) (cell :: content)] at hfind
          have hshort := hclosing.some_append _ _ _ hfind hlength
          rw [List.take_succ_cons] at hshort ⊢
          simp only [upTo, hshort]
      | none =>
          rw [← List.take_append_drop (closeAt closing content + 1)
            (cell :: content)] at hfind
          have hshort := hclosing.none_append _ _ hfind
          rw [List.take_succ_cons] at hshort
          simp only [List.take_succ_cons, upTo, hshort, ih]

theorem closeAt_marker (hclosing : Walled Marker closing) (before : List Cell)
    {marker : List Cell} (hmarker : Marker (before ++ marker))
    (content : List Cell) :
    closeAt closing (marker ++ content) =
      marker.length + closeAt closing content := by
  induction marker generalizing before with
  | nil => rw [List.nil_append, List.length_nil, Nat.zero_add]
  | cons cell marker ih =>
      have hnone := hclosing.marker before (cell :: marker) content hmarker
        (List.cons_ne_nil cell marker)
      rw [List.cons_append] at hnone ⊢
      have hrest : Marker ((before ++ [cell]) ++ marker) := by
        rwa [List.append_assoc, List.singleton_append]
      simp only [closeAt, hnone, ih (before ++ [cell]) hrest, List.length_cons]
      omega

/-- A closing match that is left does not start at a cell that is gone. -/
theorem closing_none_of_gone (hclosing : Walled Marker closing) {cell : Cell}
    {entries : List (Entry Cell)}
    (hkept : ∀ entry ∈ (((cell, true) :: entries).take
        (closeAt closing (cell :: cells entries))).drop
      (upTo closing (cell :: cells entries)), entry.2 = false) :
    closing (cell :: cells entries) = none := by
  cases hfind : closing (cell :: cells entries) with
  | none => rfl
  | some count =>
      cases count with
      | zero => exact absurd hfind (hclosing.positive _)
      | succ count =>
          simp only [closeAt, upTo, hfind, List.take_succ_cons, List.drop_zero]
            at hkept
          cases hkept (cell, true) List.mem_cons_self

/-- Reading on to a closing match that is left stays in step. -/
theorem cut_close (hclosing : Walled Marker closing) {inside : Bool}
    {entries : List (Entry Cell)} {content : List Cell}
    (hcut : Cut Marker inside entries content)
    (hkept : ∀ entry ∈ (entries.take (closeAt closing (cells entries))).drop
      (upTo closing (cells entries)), entry.2 = false) :
    ∃ next, Cut Marker next (entries.drop (closeAt closing (cells entries)))
      (content.drop (closeAt closing content)) := by
  induction hcut with
  | nil => exact ⟨false, .nil⟩
  | @keep inside cell entries content hrest ih =>
      rw [cells_cons, closeAt, upTo] at hkept
      rw [cells_cons, closeAt, closeAt]
      cases hfind : closing (cell :: cells entries) with
      | some count =>
          simp only [hfind, List.drop_zero] at hkept
          have hle := hclosing.le_length _ _ hfind
          obtain ⟨front, tail, rest, hentries, hcontent, htail, hend⟩ :=
            (Cut.keep hrest : Cut Marker false _ _).stretch rfl
          rw [hentries] at hkept ⊢
          have hcount : count ≤ front.length := by
            refine Cut.le_front (hend.imp And.left And.left) ?_ hkept
            rw [← hentries]
            simpa using hle
          have hread : closing (cell :: content) = some count := by
            have hcells := congrArg cells hentries
            rw [cells_cons, cells_append, cells_kept] at hcells
            rw [hcells] at hfind
            rw [hcontent, hclosing.find_cut hend]
            exact hclosing.some_append _ _ _ hfind hcount
          rw [hcontent] at hread ⊢
          simp only [hread]
          exact ⟨false, htail.drop_front hcount⟩
      | none =>
          simp only [hfind, List.take_succ_cons, List.drop_succ_cons] at hkept
          simp only [hclosing.silent hrest hfind, List.drop_succ_cons]
          exact ih hkept
  | @enter inside cell entries marker content hmarker hrest ih =>
      have hfind := closing_none_of_gone hclosing hkept
      simp only [cells_cons, closeAt, upTo, hfind, List.take_succ_cons,
        List.drop_succ_cons] at hkept ⊢
      rw [closeAt_marker hclosing [] hmarker, List.drop_append, List.drop_of_length_le
        (Nat.le_add_right _ _), Nat.add_sub_cancel_left, List.nil_append]
      exact ih hkept
  | @stay cell entries content hrest ih =>
      have hfind := closing_none_of_gone hclosing hkept
      simp only [cells_cons, closeAt, upTo, hfind, List.take_succ_cons,
        List.drop_succ_cons] at hkept ⊢
      exact ih hkept

theorem bracket_eq_some {content : List Cell} {count : ℕ} :
    bracket opening closing content = some count ↔
      ∃ head, opening content = some head ∧
        head + closeAt closing (content.drop head) = count :=
  Option.map_eq_some_iff

theorem bracket_eq_none {content : List Cell} :
    bracket opening closing content = none ↔ opening content = none :=
  Option.map_eq_none_iff

theorem bracket_tracks (hopening : Walled Marker opening)
    (hclosing : Walled Marker closing) :
    Tracks Marker (bracket opening closing) (Held opening closing) where
  positive := by
    intro content hzero
    obtain ⟨head, hhead, hsum⟩ := bracket_eq_some.mp hzero
    obtain rfl : head = 0 := by omega
    exact hopening.positive content hhead
  marker := fun before after rest hmarker hafter =>
    bracket_eq_none.mpr (hopening.marker before after rest hmarker hafter)
  silent := fun _ _ _ hcut hnone =>
    bracket_eq_none.mpr (hopening.silent hcut (bracket_eq_none.mp hnone))
  follows := by
    intro cell entries content count hcut hfind hheld
    obtain ⟨reach, hreach, hsum⟩ := bracket_eq_some.mp hfind
    rcases hheld with hgone | ⟨head, body, tail, hslice, hopen, hclose⟩
    · cases hgone (cell, false) List.mem_cons_self
    have hwhole : (cell, false) :: entries =
        kept head ++ (body ++ kept tail) ++ entries.drop count := by
      rw [← hslice, List.cons_append, List.take_append_drop]
    have hcells : cells ((cell, false) :: entries) =
        head ++ (cells body ++ tail) ++ cells (entries.drop count) := by
      rw [hwhole, cells_append, cells_append, cells_append, cells_kept, cells_kept]
    have hshort : reach + closeAt closing ((cell :: cells entries).drop reach) ≤
        (cell :: cells entries).length := by
      have hle := closeAt_le hclosing ((cell :: cells entries).drop reach)
      have hopen := hopening.le_length _ _ hreach
      rw [List.length_drop] at hle
      omega
    have hlength : head.length + (body.length + tail.length) = count + 1 := by
      have hsame := congrArg List.length hslice
      simp only [List.length_cons, List.length_take, List.length_append, kept,
        List.length_map, length_cells] at hsame hshort
      omega
    obtain rfl : reach = head.length := by
      have hsplit : cell :: cells entries =
          cells ((cell, false) :: entries.take count) ++
            cells (entries.drop count) := by
        rw [← cells_append, List.cons_append, List.take_append_drop]
        rfl
      rw [hsplit] at hreach
      have hle : reach ≤ (cells ((cell, false) :: entries.take count)).length := by
        have hsame := congrArg List.length hslice
        simp only [List.length_append, kept, List.length_map] at hsame
        rw [length_cells, hsame]
        omega
      have hopened := hopening.some_append _ _ _ hreach hle
      exact Option.some.inj (hopened.symm.trans hopen)
    have hdrop : ((cell, false) :: entries).drop head.length =
        (body ++ kept tail) ++ entries.drop count := by
      rw [hwhole, List.append_assoc, List.drop_left' (by simp [kept])]
    have hbody : cells (((cell, false) :: entries).drop head.length) =
        (cells body ++ tail) ++ cells (entries.drop count) := by
      rw [hdrop, cells_append, cells_append, cells_kept]
    have hclosed : closeAt closing
        (cells (((cell, false) :: entries).drop head.length)) =
          (cells body ++ tail).length := by
      rw [cells_drop, List.length_append, length_cells]
      change closeAt closing ((cell :: cells entries).drop head.length) = _
      omega
    have hupTo : upTo closing
        (cells (((cell, false) :: entries).drop head.length)) = body.length := by
      rw [← upTo_take hclosing, hclosed, hbody, List.take_left' rfl, hclose]
    obtain ⟨front, back, rest, hentries, hcontent, hback, hend⟩ :=
      (Cut.keep hcut : Cut Marker false ((cell, false) :: entries) _).stretch rfl
    have hfront : head.length ≤ front.length := by
      refine Cut.le_front (hend.imp And.left And.left) ?_ ?_
      · rw [← hentries, hwhole]
        simp [kept]
      · rw [← hentries, hwhole, List.append_assoc, List.take_left' (by simp [kept])]
        intro entry hentry
        obtain ⟨_, _, rfl⟩ := List.mem_map.mp hentry
        rfl
    have hread : opening (cell :: content) = some head.length := by
      have hfrontCells := congrArg cells hentries
      rw [cells_cons, cells_append, cells_kept] at hfrontCells
      rw [hfrontCells] at hreach
      rw [hcontent, hopening.find_cut hend]
      exact hopening.some_append _ _ _ hreach hfront
    have hcutDrop := hback.drop_front hfront
    rw [← hentries, ← hcontent] at hcutDrop
    obtain ⟨next, hnext⟩ := cut_close hclosing hcutDrop (by
      rw [hclosed, hupTo, hdrop, List.take_left' (by simp [kept]), List.drop_left]
      intro entry hentry
      obtain ⟨_, _, rfl⟩ := List.mem_map.mp hentry
      rfl)
    obtain ⟨size, hsize⟩ : ∃ size, head.length = size + 1 := by
      cases hzero : head.length with
      | zero => exact absurd (hzero ▸ hread) (hopening.positive _)
      | succ size => exact ⟨size, rfl⟩
    refine ⟨size + closeAt closing ((cell :: content).drop head.length), count,
      next, ?_, Nat.le_refl count, ?_, ?_⟩
    · rw [bracket_eq_some]
      exact ⟨head.length, hread, by omega⟩
    · rw [hclosed, List.drop_drop, List.drop_drop] at hnext
      have hentriesDrop : head.length + (cells body ++ tail).length = count + 1 := by
        rw [List.length_append, length_cells]
        exact hlength
      rw [hentriesDrop, List.drop_succ_cons] at hnext
      rw [hsize] at hnext ⊢
      rw [Nat.add_right_comm size 1, List.drop_succ_cons] at hnext
      exact hnext
    · intro entry hentry
      rw [List.drop_take, Nat.sub_self, List.take_zero] at hentry
      cases hentry
  all_gone := by
    intro cell entries hheld entry hentry
    rcases hheld with hgone | ⟨head, body, tail, hslice, hopen, _⟩
    · exact hgone entry (List.mem_cons_of_mem _ hentry)
    · cases head with
      | nil => exact absurd hopen (hopening.positive _)
      | cons first head =>
          have hhead := congrArg Prod.snd (List.cons.inj hslice).1
          cases hhead

end Bracket

/-! ## Reading cells through a view -/

section View

variable {Symbol : Type*} (view : Cell → Symbol)

theorem replaceAll_map (find : List Symbol → Option ℕ) (marker : List Cell)
    (skip : ℕ) (content : List Cell) :
    (replaceAll (fun cells => find (cells.map view)) marker skip content).map view =
      replaceAll find (marker.map view) skip (content.map view) := by
  induction content generalizing skip with
  | nil => cases skip <;> rfl
  | cons cell content ih =>
      cases skip with
      | succ skip => exact ih skip
      | zero =>
          rw [replaceAll, List.map_cons, replaceAll, ← List.map_cons]
          split
          · rw [List.map_append, ih]
          · rw [List.map_cons, ih]

theorem closeAt_map (closing : List Symbol → Option ℕ) (content : List Cell) :
    closeAt (fun cells => closing (cells.map view)) content =
      closeAt closing (content.map view) := by
  induction content with
  | nil => rfl
  | cons cell content ih => rw [closeAt, List.map_cons, closeAt, ih, ← List.map_cons]

theorem Walled.map {Marker : List Symbol → Prop} {find : List Symbol → Option ℕ}
    (hwalled : Walled Marker find) :
    Walled (fun marker : List Cell => Marker (marker.map view))
      (fun cells => find (cells.map view)) where
  positive := fun content => hwalled.positive _
  le_length := by
    intro content count hfind
    have hle := hwalled.le_length _ _ hfind
    rwa [List.length_map] at hle
  none_append := by
    intro front rest hnone
    rw [List.map_append] at hnone
    exact hwalled.none_append _ _ hnone
  some_append := by
    intro front rest count hfind hcount
    rw [List.map_append] at hfind
    exact hwalled.some_append _ _ _ hfind (by rwa [List.length_map])
  wall := by
    intro front marker rest hmarker
    rw [List.map_append, List.map_append]
    exact hwalled.wall _ _ _ hmarker
  marker := by
    intro before after rest hmarker hafter
    rw [List.map_append] at hmarker ⊢
    exact hwalled.marker _ _ _ hmarker (by simpa using hafter)

theorem Walled.mono {Marker Other : List Cell → Prop}
    {find : List Cell → Option ℕ} (hwalled : Walled Marker find)
    (hmono : ∀ marker, Other marker → Marker marker) : Walled Other find where
  positive := hwalled.positive
  le_length := hwalled.le_length
  none_append := hwalled.none_append
  some_append := hwalled.some_append
  wall := fun front marker rest hmarker =>
    hwalled.wall front marker rest (hmono marker hmarker)
  marker := fun before after rest hmarker =>
    hwalled.marker before after rest (hmono _ hmarker)

end View

/-! ## Deciding what is left -/

theorem leaves_iff {find : List Cell → Option ℕ} {slice : List (Entry Cell)} :
    Leaves find slice ↔
      let front := cells (slice.takeWhile fun entry => !entry.2)
      slice = kept front ++ gone (cells (slice.drop front.length)) ∧
        (front = [] ∨ find front = some front.length) := by
  constructor
  · rintro ⟨front, back, rfl, hfront⟩
    have htake : (kept front ++ gone back).takeWhile (fun entry => !entry.2) =
        kept front := by
      rw [List.takeWhile_append_of_pos (by simp [kept])]
      cases back <;> simp [gone]
    simp only [htake, cells_kept]
    refine ⟨?_, hfront⟩
    rw [List.drop_left' (by simp [kept]), cells_gone]
  · rintro ⟨hslice, hfront⟩
    exact ⟨_, _, hslice, hfront⟩

instance [DecidableEq Cell] (find : List Cell → Option ℕ)
    (slice : List (Entry Cell)) : Decidable (Leaves find slice) :=
  decidable_of_iff _ leaves_iff.symm

theorem upTo_le (closing : List Cell → Option ℕ) (content : List Cell) :
    upTo closing content ≤ content.length := by
  induction content with
  | nil => exact Nat.le_refl 0
  | cons cell content ih =>
      rw [upTo]
      split
      · exact Nat.zero_le _
      · exact Nat.succ_le_succ ih

theorem held_iff {opening closing : List Cell → Option ℕ}
    {slice : List (Entry Cell)} :
    Held opening closing slice ↔
      (∀ entry ∈ slice, entry.2 = true) ∨
        ∃ count ∈ opening (cells slice),
          let rest := slice.drop count
          let close := upTo closing (cells rest)
          slice = kept (cells (slice.take count)) ++
            (rest.take close ++ kept (cells (rest.drop close))) ∧
          count ≤ slice.length := by
  refine or_congr_right ⟨?_, ?_⟩
  · rintro ⟨head, body, tail, hslice, hopen, hclose⟩
    have hdrop : slice.drop head.length = body ++ kept tail := by
      rw [hslice, List.drop_left' (by simp [kept])]
    have htake : slice.take head.length = kept head := by
      rw [hslice, List.take_left' (by simp [kept])]
    refine ⟨head.length, hopen, ?_, ?_⟩
    · simp only [hdrop, htake, cells_append, cells_kept, hclose, List.drop_left,
        List.take_left]
      exact hslice
    · rw [hslice]
      simp [kept]
  · rintro ⟨count, hopen, hslice, hcount⟩
    refine ⟨_, _, _, hslice, ?_, ?_⟩
    · rw [length_cells, List.length_take, Nat.min_eq_left hcount]
      exact hopen
    · rw [← cells_append, List.take_append_drop, List.length_take, Nat.min_eq_left]
      rw [← length_cells]
      exact upTo_le _ _

instance [DecidableEq Cell] (opening closing : List Cell → Option ℕ)
    (slice : List (Entry Cell)) : Decidable (Held opening closing slice) :=
  decidable_of_iff _ held_iff.symm

end Kitaebot.Redaction
