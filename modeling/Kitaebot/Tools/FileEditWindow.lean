import Kitaebot.Tools.FileEdit

/-!
# Where a fuzzy edit lands

The span of a window adds one byte for every line end, while a carriage return
before the newline is stripped from the line as well.  Each such line before
the window shifts the span one byte towards the start, and each one inside it
takes one byte from its end.  What a fuzzy edit leaves is worked out here for
every text, window and replacement.
-/

namespace Kitaebot.FileEdit

open ByteText

/-! ## A window of lines -/

section Window

variable (content : List Char) (start count : ℕ)

/-- The text of the lines before the window. -/
def beforeWindow : List Char := joinLines ((splitLines content).take start)

def windowLines : List Line := ((splitLines content).drop start).take count

/-- The text of the lines after the window. -/
def afterWindow : List Char := joinLines ((splitLines content).drop (start + count))

/-- The ending of the window's last line. -/
def lastEnding : List Char :=
  (((windowLines content start count).getLast?).map Line.ending).getD []

/-- The window is at the end of the text. -/
def AtEnd : Prop := (splitLines content).length ≤ start + count

instance : Decidable (AtEnd content start count) :=
  inferInstanceAs (Decidable (_ ≤ _))

/-- The text is the lines before the window, the new text and the lines after
it, which still start on a line of their own; the ending of the window's last
line is kept or goes with the window. -/
def WindowEdited (replacement result : List Char) : Prop :=
  ∃ kept ∈ [[], lastEnding content start count],
    result = beforeWindow content start ++ replacement ++ kept ++
      afterWindow content start count ∧
    (afterWindow content start count ≠ [] →
      StartsLine (beforeWindow content start ++ replacement ++ kept))

instance (replacement result : List Char) :
    Decidable (WindowEdited content start count replacement result) :=
  inferInstanceAs (Decidable (∃ kept ∈ [[], lastEnding content start count], _))

end Window

/-- The lines whose ending has two bytes. -/
def crlfs (lines : List Line) : ℕ :=
  lines.countP fun line => line.ending == ['\r', '\n']

/-- The last bytes of a text, where they begin between two symbols. -/
def lastBytes (count : ℕ) (text : List Char) : Option (List Char) :=
  (cut (size text - count) text).map Prod.snd

/-- Moving a replacement so many bytes towards the start changes nothing. -/
def ShiftUnseen (shift : ℕ) (before body replacement : List Char) : Prop :=
  ∃ left ∈ lastBytes shift before, ∃ right ∈ lastBytes shift (before ++ body),
    replacement ++ right = left ++ replacement

instance (shift : ℕ) (before body replacement : List Char) :
    Decidable (ShiftUnseen shift before body replacement) :=
  inferInstanceAs (Decidable
    (∃ left ∈ lastBytes shift before, ∃ right ∈ lastBytes shift (before ++ body),
      replacement ++ right = left ++ replacement))

/-- The line ends of a window with two bytes that its span runs over. -/
def innerCrlfs (content : List Char) (start count : ℕ) : ℕ :=
  crlfs (if AtEnd content start count then
    (windowLines content start count).dropLast
  else windowLines content start count)

/-- The window without the part of its last ending that is kept. -/
def windowBody (content : List Char) (start count : ℕ) (kept : List Char) :
    List Char :=
  (joinLines (windowLines content start count)).take
    ((joinLines (windowLines content start count)).length - kept.length)

/-- The line ends of two bytes do not show: as many bytes as they take from the
window are those of the ending that is kept, the shift of those before it is
unseen, and the lines after the window start on their own. -/
def CleanWindow (content : List Char) (start count : ℕ)
    (replacement : List Char) : Prop :=
  ∃ kept ∈ [[], lastEnding content start count],
    innerCrlfs content start count +
        (if AtEnd content start count then
          size (lastEnding content start count) else 0) = size kept ∧
      ShiftUnseen (crlfs ((splitLines content).take start))
        (beforeWindow content start) (windowBody content start count kept)
        replacement ∧
      (afterWindow content start count ≠ [] → StartsLine (replacement ++ kept))

instance (content : List Char) (start count : ℕ) (replacement : List Char) :
    Decidable (CleanWindow content start count replacement) :=
  inferInstanceAs (Decidable (∃ kept ∈ [[], lastEnding content start count], _))

/-! ## The bytes of a window -/

theorem content_eq (content : List Char) (start count : ℕ) :
    content = beforeWindow content start ++
      joinLines (windowLines content start count) ++
        afterWindow content start count := by
  rw [beforeWindow, windowLines, afterWindow, ← joinLines_append,
    ← joinLines_append, ← List.drop_drop, List.append_assoc,
    List.take_append_drop, List.take_append_drop, joinLines_splitLines]

/-- An ended line has one byte more than the span counts when its ending has
two. -/
theorem size_raw {line : Line} (hline : line.Ended) :
    size line.raw = size line.text + 1 +
      if line.ending = ['\r', '\n'] then 1 else 0 := by
  have hnewline : Char.utf8Size '\n' = 1 := by decide
  have hreturn : Char.utf8Size '\r' = 1 := by decide
  rcases hline with hending | hending
  · simp [Line.raw, hending, hnewline]
  · simp [Line.raw, hending, hnewline, hreturn]

theorem crlfs_cons (line : Line) (lines : List Line) :
    crlfs (line :: lines) =
      (if line.ending = ['\r', '\n'] then 1 else 0) + crlfs lines := by
  rw [crlfs, List.countP_cons, crlfs]
  by_cases hending : line.ending = ['\r', '\n']
  · simp [hending]
    omega
  · simp [hending]

/-- What ended lines have beyond one byte for each line end. -/
theorem size_joinLines {lines : List Line} (hlines : ∀ line ∈ lines, line.Ended) :
    size (joinLines lines) =
      (lines.map fun line => size line.text + 1).sum + crlfs lines := by
  induction lines with
  | nil => rfl
  | cons line lines ih =>
      have hrest := ih fun other hother => hlines other (List.mem_cons_of_mem _ hother)
      rw [joinLines_cons, size_append, size_raw (hlines line List.mem_cons_self),
        hrest, List.map_cons, List.sum_cons, crlfs_cons]
      omega

theorem ended_of_lt {content : List Char} {before after : List Line}
    (hlines : splitLines content = before ++ after) (hafter : after ≠ [])
    {line : Line} (hline : line ∈ before) : line.Ended := by
  obtain ⟨front, rest, hbefore⟩ := List.append_of_mem hline
  apply ended_linesFrom [] content line front (rest ++ after)
  · rw [← splitLines, hlines, hbefore, List.append_assoc, List.cons_append]
  · intro hnil
    exact hafter (List.append_eq_nil_iff.mp hnil).2

section Span

variable {content : List Char} {start count : ℕ}

theorem ended_take (hstart : start < (splitLines content).length) :
    ∀ line ∈ (splitLines content).take start, line.Ended := by
  intro line hline
  apply ended_of_lt (List.take_append_drop start (splitLines content)).symm _ hline
  intro hnil
  rw [List.drop_eq_nil_iff] at hnil
  omega

/-- The span starts one byte too early for each two-byte line end before it. -/
theorem span_start (hstart : start < (splitLines content).length) :
    (windowSpan (lines content) count start).start +
        crlfs ((splitLines content).take start) =
      size (beforeWindow content start) := by
  rw [beforeWindow, size_joinLines (ended_take hstart), windowSpan, lines,
    ← List.map_take, List.map_map]
  rfl

/-- The lines of a window that all count their line end. -/
theorem sum_counted (window : List Line) (total first : ℕ)
    (hfirst : first + window.length < total) :
    (((window.map Line.text).zipIdx first).map fun line =>
        size line.1 + if line.2 + 1 < total then 1 else 0).sum =
      (window.map fun line => size line.text + 1).sum := by
  induction window generalizing first with
  | nil => rfl
  | cons line window ih =>
      rw [List.length_cons] at hfirst
      rw [List.map_cons, List.zipIdx_cons, List.map_cons, List.sum_cons,
        List.map_cons, List.sum_cons, ih (first + 1) (by omega)]
      simp only
      rw [if_pos (by omega)]

theorem sum_uncounted (window : List Line) (last : Line) (total first : ℕ)
    (hfirst : first + window.length + 1 = total) :
    ((((window ++ [last]).map Line.text).zipIdx first).map fun line =>
        size line.1 + if line.2 + 1 < total then 1 else 0).sum =
      (window.map fun line => size line.text + 1).sum + size last.text := by
  induction window generalizing first with
  | nil =>
      have htotal : ¬ first + 1 < total := by
        rw [List.length_nil] at hfirst
        omega
      simp [htotal]
  | cons line window ih =>
      rw [List.length_cons] at hfirst
      rw [List.cons_append, List.map_cons, List.zipIdx_cons, List.map_cons,
        List.sum_cons, List.map_cons, List.sum_cons, ih (first + 1) (by omega)]
      simp only
      rw [if_pos (by omega)]
      omega

theorem length_windowLines (hwindow : start + count ≤ (splitLines content).length) :
    (windowLines content start count).length = count := by
  rw [windowLines, List.length_take, List.length_drop]
  omega

variable (content start count) in
theorem window_split :
    splitLines content = ((splitLines content).take start ++
      windowLines content start count) ++
        (splitLines content).drop (start + count) := by
  rw [windowLines, List.append_assoc, ← List.drop_drop, List.take_append_drop,
    List.take_append_drop]

theorem windowSpan_len :
    (windowSpan (lines content) count start).len =
      ((((windowLines content start count).map Line.text).zipIdx start).map
        fun line => size line.1 +
          if line.2 + 1 < (splitLines content).length then 1 else 0).sum := by
  simp only [windowSpan, windowLines, lines, List.length_map, List.map_take,
    List.map_drop]

/-- The window ends in its last line's ending. -/
theorem joinLines_window (hcount : 0 < count)
    (hwindow : start + count ≤ (splitLines content).length) :
    ∃ body, joinLines (windowLines content start count) =
        body ++ lastEnding content start count ∧
      windowBody content start count (lastEnding content start count) = body ∧
      ∃ last, windowLines content start count =
          (windowLines content start count).dropLast ++ [last] ∧
        last.ending = lastEnding content start count ∧
        body = joinLines (windowLines content start count).dropLast ++
          last.text := by
  have hne : windowLines content start count ≠ [] := by
    intro hnil
    have hlength := length_windowLines hwindow
    rw [hnil, List.length_nil] at hlength
    omega
  have hlast := (List.dropLast_append_getLast hne).symm
  have hending : lastEnding content start count =
      ((windowLines content start count).getLast hne).ending := by
    rw [lastEnding, List.getLast?_eq_some_getLast hne]
    rfl
  have hjoin : joinLines (windowLines content start count) =
      (joinLines (windowLines content start count).dropLast ++
        ((windowLines content start count).getLast hne).text) ++
          lastEnding content start count := by
    conv_lhs => rw [hlast]
    rw [joinLines_append, joinLines_cons, joinLines_nil, List.append_nil,
      Line.raw, hending, List.append_assoc]
  refine ⟨_, hjoin, ?_, _, hlast, hending.symm, rfl⟩
  rw [windowBody, hjoin, List.length_append, Nat.add_sub_cancel,
    List.take_left]

/-- The bytes the span runs over, with the ones its two-byte line ends hide and
the ending a window at the end of the text leaves out. -/
theorem span_len (hcount : 0 < count)
    (hwindow : start + count ≤ (splitLines content).length) :
    (windowSpan (lines content) count start).len +
        innerCrlfs content start count +
          (if AtEnd content start count then
            size (lastEnding content start count) else 0) =
      size (joinLines (windowLines content start count)) := by
  have hlength := length_windowLines hwindow
  obtain ⟨body, hjoin, _, last, hlast, _, hbody⟩ :=
    joinLines_window hcount hwindow
  rw [windowSpan_len, innerCrlfs]
  by_cases hend : AtEnd content start count
  · rw [if_pos hend, if_pos hend]
    have htotal : start + (windowLines content start count).dropLast.length + 1 =
        (splitLines content).length := by
      rw [List.length_dropLast, hlength]
      unfold AtEnd at hend
      omega
    have hended : ∀ line ∈ (windowLines content start count).dropLast,
        line.Ended := by
      intro line hline
      have hsplit : splitLines content = ((splitLines content).take start ++
          (windowLines content start count).dropLast) ++
            (last :: (splitLines content).drop (start + count)) := by
        have hwhole := window_split content start count
        rw [hlast] at hwhole
        simpa only [List.append_assoc, List.singleton_append] using hwhole
      exact ended_of_lt hsplit (List.cons_ne_nil _ _)
        (List.mem_append_right _ hline)
    have hsum := sum_uncounted (windowLines content start count).dropLast last
      (splitLines content).length start htotal
    rw [← hlast] at hsum
    rw [hsum, hjoin, hbody, size_append, size_append, size_joinLines hended]
    omega
  · rw [if_neg hend, if_neg hend]
    have htotal : start + (windowLines content start count).length <
        (splitLines content).length := by
      rw [hlength]
      unfold AtEnd at hend
      omega
    have hended : ∀ line ∈ windowLines content start count, line.Ended := by
      intro line hline
      apply ended_of_lt (window_split content start count) _
        (List.mem_append_right _ hline)
      intro hnil
      rw [List.drop_eq_nil_iff] at hnil
      omega
    rw [sum_counted _ _ _ htotal, size_joinLines hended]
    omega

theorem windowBody_append (hcount : 0 < count)
    (hwindow : start + count ≤ (splitLines content).length) {kept : List Char}
    (hkept : kept ∈ [[], lastEnding content start count]) :
    joinLines (windowLines content start count) =
      windowBody content start count kept ++ kept := by
  rcases List.mem_cons.mp hkept with rfl | hlast
  · rw [windowBody, List.length_nil, Nat.sub_zero, List.take_length,
      List.append_nil]
  · obtain ⟨body, hjoin, hbody, _⟩ := joinLines_window hcount hwindow
    rw [List.mem_singleton.mp hlast, hbody, hjoin]

end Span

theorem lastBytes_eq_some {count : ℕ} {text last : List Char} :
    last ∈ lastBytes count text ↔
      ∃ first, text = first ++ last ∧ size first = size text - count := by
  rw [Option.mem_def, lastBytes, Option.map_eq_some_iff]
  constructor
  · rintro ⟨⟨first, rest⟩, hcut, hlast⟩
    obtain ⟨htext, hsize⟩ := cut_eq_some.mp hcut
    have hlast' : rest = last := hlast
    exact ⟨first, hlast' ▸ htext, hsize⟩
  · rintro ⟨first, htext, hsize⟩
    exact ⟨(first, last), cut_eq_some.mpr ⟨htext, hsize⟩, rfl⟩

/-! ## What a splice at a window leaves -/

/-- A splice at the span of a window edits that window alone exactly when its
two-byte line ends do not show. -/
theorem replaceRange_window_iff {content : List Char} {start count : ℕ}
    (hcount : 0 < count) (hwindow : start + count ≤ (splitLines content).length)
    (replacement : List Char) :
    (∃ result, replaceRange content
        (windowSpan (lines content) count start).start
        (windowSpan (lines content) count start).len replacement = some result ∧
      WindowEdited content start count replacement result) ↔
      CleanWindow content start count replacement := by
  have hspanStart : (windowSpan (lines content) count start).start +
        crlfs ((splitLines content).take start) =
      size (beforeWindow content start) := span_start (by omega)
  have hspanLen := span_len hcount hwindow
  have hcontent := content_eq content start count
  have hended : StartsLine (beforeWindow content start) :=
    startsLine_joinLines (ended_take (by omega))
  constructor
  · rintro ⟨result, hreplace, kept, hkept, hresult, howns⟩
    obtain ⟨first, middle, rest, htext, hfirst, hmiddle, hspliced⟩ :=
      replaceRange_eq_some.mp hreplace
    have hbody := windowBody_append hcount hwindow hkept
    -- Both readings of the result have the same size, which fixes the ending.
    have hsizes : size first + size replacement + size rest =
        size (beforeWindow content start) + size replacement + size kept +
          size (afterWindow content start count) := by
      have hsame := congrArg size (hspliced.symm.trans hresult)
      simpa only [size_append] using hsame
    have htotal : size first + size middle + size rest =
        size (beforeWindow content start) +
          size (joinLines (windowLines content start count)) +
            size (afterWindow content start count) := by
      have hsame := congrArg size (htext.symm.trans hcontent)
      simpa only [size_append] using hsame
    refine ⟨kept, hkept, by omega, ?_, ?_⟩
    · have hstarts : first ++ (middle ++ rest) = beforeWindow content start ++
          (joinLines (windowLines content start count) ++
            afterWindow content start count) := by
        rw [← List.append_assoc, ← List.append_assoc, ← htext, ← hcontent]
      obtain ⟨left, hleft, _⟩ := append_of_size_le hstarts (by omega)
      have hbodySize : size (joinLines (windowLines content start count)) =
          size (windowBody content start count kept) + size kept := by
        rw [hbody, size_append]
      have hends : (first ++ middle) ++ rest =
          (beforeWindow content start ++
            windowBody content start count kept) ++
              (kept ++ afterWindow content start count) := by
        rw [← htext, List.append_assoc (beforeWindow content start),
          ← List.append_assoc _ kept, ← hbody, ← List.append_assoc, ← hcontent]
      obtain ⟨right, hright, hrest⟩ := append_of_size_le hends (by
        rw [size_append, size_append]
        omega)
      refine ⟨left, lastBytes_eq_some.mpr ⟨first, hleft, by omega⟩, right,
        lastBytes_eq_some.mpr ⟨first ++ middle, hright, ?_⟩, ?_⟩
      · rw [size_append, size_append]
        omega
      · rw [hspliced, hrest, hleft] at hresult
        have hcancel : first ++ (replacement ++ right ++
              (kept ++ afterWindow content start count)) =
            first ++ (left ++ replacement ++
              (kept ++ afterWindow content start count)) := by
          simpa only [List.append_assoc] using hresult
        exact List.append_cancel_right (List.append_cancel_left hcancel)
    · intro hafter
      have hstarts := howns hafter
      rw [List.append_assoc] at hstarts
      exact hstarts.of_append
  · rintro ⟨kept, hkept, hcounts, ⟨left, hleft, right, hright, hshift⟩, howns⟩
    obtain ⟨first, hbefore, hfirst⟩ := lastBytes_eq_some.mp hleft
    obtain ⟨upto, hupto, huptoSize⟩ := lastBytes_eq_some.mp hright
    have hbody := windowBody_append hcount hwindow hkept
    have hbodySize : size (joinLines (windowLines content start count)) =
        size (windowBody content start count kept) + size kept := by
      rw [hbody, size_append]
    rw [size_append] at huptoSize
    have hstarts : first ++ (left ++ windowBody content start count kept) =
        upto ++ right := by
      rw [← List.append_assoc, ← hbefore, hupto]
    obtain ⟨middle, hmiddle, _⟩ := append_of_size_le hstarts (by omega)
    have hmiddleSize := congrArg size hmiddle
    rw [size_append] at hmiddleSize
    have htext : content = first ++ middle ++
        (right ++ kept ++ afterWindow content start count) := by
      rw [← hmiddle]
      conv_lhs => rw [hcontent, hbody]
      simp only [← List.append_assoc]
      rw [hupto]
    refine ⟨first ++ replacement ++
      (right ++ kept ++ afterWindow content start count),
      replaceRange_eq_some.mpr ⟨first, middle, _, htext, by omega, by omega,
        rfl⟩, kept, hkept, ?_, ?_⟩
    · conv_rhs => rw [hbefore]
      simp only [List.append_assoc]
      rw [← List.append_assoc replacement, hshift, List.append_assoc]
    · intro hafter
      rw [List.append_assoc]
      exact hended.append (howns hafter)

/-! ## A fuzzy edit -/

/-- The path resolves, the file reads and the write succeeds. -/
structure Surroundings.Works (around : Surroundings) (path : String) : Prop where
  resolves : around.resolveWritable path = .ok ()
  reads : around.readError = none
  writes : ∀ text, around.write text = (text, none)

/-- Nothing matches exactly, and the first fuzzy rung that matches has exactly
one window. -/
def FuzzyWindow (content old : List Char) (name : String) (start : ℕ) : Prop :=
  exactSpans content old = [] ∧
    ∃ earlier normalize later,
      fuzzyRungs = earlier ++ (name, normalize) :: later ∧
        (∀ rung ∈ earlier, windowStarts content old rung.2 = []) ∧
        windowStarts content old normalize = [start]

theorem findSome?_append_of_none {Source Target : Type}
    {f : Source → Option Target} {earlier : List Source}
    (hearlier : ∀ source ∈ earlier, f source = none) (later : List Source) :
    (earlier ++ later).findSome? f = later.findSome? f := by
  rw [List.findSome?_append, List.findSome?_eq_none_iff.mpr hearlier,
    Option.none_or]

section Fuzzy

variable {content old : List Char} {name : String} {start : ℕ}

theorem FuzzyWindow.findMatches (hwindow : FuzzyWindow content old name start) :
    FileEdit.findMatches content old = some (.fuzzy name,
      [windowSpan (lines content) (lines old).length start]) := by
  obtain ⟨hexact, earlier, normalize, later, hrungs, hearlier, hstarts⟩ := hwindow
  have hnone : ∀ rung ∈ earlier,
      (let spans := windowSpans content old rung.2
        if spans.isEmpty then none
        else some (Rung.fuzzy rung.1, spans)) = none := by
    intro rung hrung
    simp only [windowSpans, hearlier rung hrung, List.map_nil, List.isEmpty_nil,
      if_true]
  simp only [FileEdit.findMatches, hexact, List.isEmpty_nil, Bool.not_true,
    Bool.false_eq_true, if_false, hrungs]
  rw [findSome?_append_of_none hnone, List.findSome?_cons]
  simp only [windowSpans, hstarts, List.map_cons, List.map_nil,
    List.isEmpty_cons, Bool.false_eq_true, if_false]

/-- A window that matches lies within the text and is not empty. -/
theorem mem_windowStarts {normalize : List Char → List Char}
    (hstart : start ∈ windowStarts content old normalize) :
    0 < (lines old).length ∧
      start + (lines old).length ≤ (splitLines content).length := by
  have hlength : (lines content).length = (splitLines content).length := by
    rw [lines, List.length_map]
  simp only [windowStarts] at hstart
  split at hstart
  · cases hstart
  · next hneedle =>
      have hpos : 0 < (lines old).length := by
        have hne : ((lines old).map normalize) ≠ [] := by simpa using hneedle
        have hposMap := List.length_pos_of_ne_nil hne
        rwa [List.length_map] at hposMap
      have hrange := List.mem_range.mp (List.mem_filter.mp hstart).1
      rw [List.length_map] at hrange
      omega

theorem FuzzyWindow.inside (hwindow : FuzzyWindow content old name start) :
    0 < (lines old).length ∧
      start + (lines old).length ≤ (splitLines content).length := by
  obtain ⟨_, _, normalize, _, _, _, hstarts⟩ := hwindow
  exact mem_windowStarts (hstarts ▸ List.mem_singleton_self start)

theorem FuzzyWindow.old_ne_nil (hwindow : FuzzyWindow content old name start) :
    old ≠ [] := by
  rintro rfl
  exact absurd hwindow.inside.1 (by decide)

end Fuzzy

/-- What an edit of a single span leaves in the file. -/
theorem execute_single {around : Surroundings} {args : Args}
    (haround : around.Works args.path) (hold : args.oldString ≠ [])
    (hdiffer : args.oldString ≠ args.newString) {file : List Char} {rung : Rung}
    {span : Span}
    (hmatches : findMatches file args.oldString = some (rung, [span]))
    (history : EditHistory) :
    match replaceRange file span.start span.len args.newString with
    | none => (execute around history file args).outcome = .error .slice
    | some result => (execute around history file args).outcome ≠ .error .slice ∧
        (execute around history file args).file = result := by
  have hexecute : execute around history file args =
      editFile around history file args := by
    rw [execute, if_neg hold, if_neg hdiffer]
    simp only [haround.resolves, haround.reads]
  rw [hexecute]
  cases hreplace : replaceRange file span.start span.len args.newString with
  | none =>
      simp only [editFile, hmatches, edited, splice, hreplace, bind, Except.bind]
  | some result =>
      obtain ⟨first, middle, rest, _, hfirst, _, hresult⟩ :=
        replaceRange_eq_some.mp hreplace
      have hrange : span.start + size args.newString ≤ size result := by
        rw [hresult, size_append, size_append]
        omega
      have hecho : echoRegion result span.start (size args.newString) ≠
          .error .slice := by
        rcases echoRegion_cases hrange with ⟨_, hfault⟩ | ⟨_, text, htext⟩
        · rw [hfault]
          exact fun heq => by cases heq
        · rw [htext]
          exact fun heq => by cases heq
      simp only [editFile, hmatches, edited, splice, hreplace, bind, Except.bind]
      by_cases hsame : result = file
      · rw [if_pos hsame, futile]
        split
        · exact ⟨(fun heq => by cases heq), hsame.symm⟩
        · refine ⟨?_, hsame.symm⟩
          split
          · next fault hfault =>
              rintro heq
              cases heq
              exact hecho hfault
          · exact fun heq => by cases heq
      · rw [if_neg hsame, land, haround.writes]
        refine ⟨?_, rfl⟩
        simp only [bind, Except.bind]
        split
        · next fault hfault =>
            rintro heq
            cases heq
            exact hecho hfault
        · exact fun heq => by cases heq

/-- A fuzzy edit touches its window alone exactly when the two-byte line ends do
not show and the lines after the window start on their own. -/
theorem fuzzyEdit_iff {around : Surroundings} {args : Args}
    (haround : around.Works args.path)
    (hdiffer : args.oldString ≠ args.newString) {file : List Char}
    {name : String} {start : ℕ}
    (hwindow : FuzzyWindow file args.oldString name start)
    (history : EditHistory) :
    ((execute around history file args).outcome ≠ .error .slice ∧
        WindowEdited file start (lines args.oldString).length args.newString
          (execute around history file args).file) ↔
      CleanWindow file start (lines args.oldString).length args.newString := by
  obtain ⟨hcount, hinside⟩ := hwindow.inside
  have hsingle := execute_single haround hwindow.old_ne_nil hdiffer
    hwindow.findMatches history
  rw [← replaceRange_window_iff hcount hinside]
  split at hsingle
  · next hreplace =>
      simp [hsingle, hreplace]
  · next result hreplace =>
      rw [hsingle.2]
      simp [hsingle.1, hreplace]

/-- A file system that does as it is told. -/
def quietSurroundings : Surroundings where
  fingerprint _ := 0
  resolveWritable _ := .ok ()
  readError := none
  write text := (text, none)

theorem quietSurroundings_works (path : String) :
    quietSurroundings.Works path :=
  ⟨rfl, rfl, fun _ => rfl⟩

/-- `foo bar` to `x`, in a text where the words stand further apart. -/
def joinWords : Args := ⟨"f", "foo bar".toList, "x".toList, false⟩

theorem joinWords_window (ending : List Char)
    (hending : ending = ['\n'] ∨ ending = ['\r', '\n']) :
    FuzzyWindow ("a".toList ++ ending ++ "foo  bar".toList ++ ending ++
      "end".toList ++ ending) "foo bar".toList "whitespace-flexible" 1 := by
  have hrungs : fuzzyRungs =
      [("trailing-whitespace-insensitive", stripTrailing)] ++
        ("whitespace-flexible", normalizeLine) ::
          [("unicode-folded", foldLine)] := rfl
  rcases hending with rfl | rfl
  · refine ⟨by decide, _, _, _, hrungs, ?_, by decide⟩
    intro rung hrung
    rw [List.mem_singleton.mp hrung]
    decide
  · refine ⟨by decide, _, _, _, hrungs, ?_, by decide⟩
    intro rung hrung
    rw [List.mem_singleton.mp hrung]
    decide

/-- With two-byte line ends the edit takes the newline of the line before; with
one-byte line ends it takes the one after the window. -/
theorem joinWords_misplaced :
    (execute quietSurroundings ⟨[], []⟩ "a\r\nfoo  bar\r\nend\r\n".toList
        joinWords).file = "a\rx\r\nend\r\n".toList ∧
      ¬ WindowEdited "a\r\nfoo  bar\r\nend\r\n".toList 1 1 "x".toList
        "a\rx\r\nend\r\n".toList ∧
      (execute quietSurroundings ⟨[], []⟩ "a\nfoo  bar\nend\n".toList
        joinWords).file = "a\nxend\n".toList ∧
      ¬ WindowEdited "a\nfoo  bar\nend\n".toList 1 1 "x".toList
        "a\nxend\n".toList ∧
      FuzzyWindow "a\r\nfoo  bar\r\nend\r\n".toList "foo bar".toList
        "whitespace-flexible" 1 ∧
      FuzzyWindow "a\nfoo  bar\nend\n".toList "foo bar".toList
        "whitespace-flexible" 1 :=
  ⟨by decide, by decide, by decide, by decide,
    joinWords_window _ (.inr rfl), joinWords_window _ (.inl rfl)⟩

/-- A new text that brings its newline lands where the window was. -/
theorem joinWords_lands :
    (execute quietSurroundings ⟨[], []⟩ "a\nfoo  bar\nend\n".toList
        ⟨"f", "foo bar".toList, "x\n".toList, false⟩).outcome ≠ .error .slice ∧
      WindowEdited "a\nfoo  bar\nend\n".toList 1 1 "x\n".toList
        (execute quietSurroundings ⟨[], []⟩ "a\nfoo  bar\nend\n".toList
          ⟨"f", "foo bar".toList, "x\n".toList, false⟩).file := by
  have hlands := fuzzyEdit_iff (quietSurroundings_works "f")
    (by decide : (⟨"f", "foo bar".toList, "x\n".toList, false⟩ : Args).oldString ≠
      "x\n".toList)
    (joinWords_window ['\n'] (.inl rfl)) ⟨[], []⟩
  exact hlands.mpr (by decide)

end Kitaebot.FileEdit
