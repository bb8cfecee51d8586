import Mathlib.Algebra.GroupWithZero.Nat
import Mathlib.Data.List.Basic
import Mathlib.Data.Nat.Notation

/-!
# Texts addressed by byte offsets

A text is its list of symbols; an offset counts UTF-8 bytes and may fall inside
a symbol, where no cut is possible.  A text is also the list of its lines, each
with the ending that was stripped from it.
-/

namespace Kitaebot.ByteText

/-! ## Cutting at an offset -/

/-- The bytes of a text. -/
def size (text : List Char) : ℕ := (text.map Char.utf8Size).sum

/-- Cut a text at an offset, where that is a boundary between symbols. -/
def cut : ℕ → List Char → Option (List Char × List Char)
  | 0, text => some ([], text)
  | _ + 1, [] => none
  | offset + 1, symbol :: text =>
      if symbol.utf8Size ≤ offset + 1 then
        (cut (offset + 1 - symbol.utf8Size) text).map fun halves =>
          (symbol :: halves.1, halves.2)
      else none
  termination_by structural _ text => text

/-- The offset is the length of some beginning of the text. -/
def Boundary (text : List Char) (offset : ℕ) : Prop :=
  (cut offset text).isSome = true

instance (text : List Char) (offset : ℕ) : Decidable (Boundary text offset) :=
  inferInstanceAs (Decidable (_ = _))

/-- `String::replace_range`: none where an end is out of range or inside a
symbol. -/
def replaceRange (text : List Char) (start length : ℕ) (replacement : List Char) :
    Option (List Char) := do
  let (before, rest) ← cut start text
  let (_, after) ← cut length rest
  some (before ++ replacement ++ after)

@[simp]
theorem size_nil : size [] = 0 := rfl

@[simp]
theorem size_cons (symbol : Char) (text : List Char) :
    size (symbol :: text) = symbol.utf8Size + size text := by
  rw [size, size, List.map_cons, List.sum_cons]

@[simp]
theorem size_append (first second : List Char) :
    size (first ++ second) = size first + size second := by
  rw [size, size, size, List.map_append, List.sum_append]

@[simp]
theorem size_eq_zero {text : List Char} : size text = 0 ↔ text = [] := by
  cases text with
  | nil => simp
  | cons symbol text =>
      have hpos := symbol.utf8Size_pos
      rw [size_cons]
      constructor
      · omega
      · intro hnil
        cases hnil

theorem utf8ByteSize_ofList (text : List Char) :
    (String.ofList text).utf8ByteSize = size text := by
  induction text with
  | nil => rfl
  | cons symbol text ih =>
      have hcons : String.ofList (symbol :: text) =
          String.singleton symbol ++ String.ofList text := by
        rw [← String.toList_inj]
        simp
      rw [hcons, String.utf8ByteSize_append, ih, size_cons]
      simp

/-- A cut yields the beginning of that many bytes and the rest. -/
theorem cut_eq_some {offset : ℕ} {text before after : List Char} :
    cut offset text = some (before, after) ↔
      text = before ++ after ∧ size before = offset := by
  induction text generalizing offset before with
  | nil =>
      cases offset with
      | zero =>
          simp only [cut, Option.some.injEq, Prod.mk.injEq, size_eq_zero]
          constructor
          · rintro ⟨rfl, rfl⟩
            exact ⟨rfl, rfl⟩
          · rintro ⟨htext, rfl⟩
            exact ⟨rfl, htext⟩
      | succ offset =>
          simp only [cut, reduceCtorEq, false_iff]
          rintro ⟨htext, hsize⟩
          rw [(List.append_eq_nil_iff.mp htext.symm).1] at hsize
          cases hsize
  | cons symbol text ih =>
      have hpos := symbol.utf8Size_pos
      cases offset with
      | zero =>
          simp only [cut, Option.some.injEq, Prod.mk.injEq, size_eq_zero]
          constructor
          · rintro ⟨rfl, rfl⟩
            exact ⟨rfl, rfl⟩
          · rintro ⟨htext, rfl⟩
            exact ⟨rfl, htext⟩
      | succ offset =>
          rw [cut]
          constructor
          · intro hcut
            split at hcut
            · next hfits =>
                obtain ⟨halves, hhalves, heq⟩ := Option.map_eq_some_iff.mp hcut
                obtain ⟨first, second⟩ := halves
                obtain ⟨rfl, rfl⟩ := Prod.mk.injEq .. ▸ heq
                obtain ⟨htext, hsize⟩ := ih.mp hhalves
                rw [htext, size_cons, hsize]
                exact ⟨rfl, by omega⟩
            · cases hcut
          · rintro ⟨htext, hsize⟩
            cases before with
            | nil => cases hsize
            | cons head before =>
                rw [List.cons_append] at htext
                obtain ⟨rfl, htail⟩ := List.cons.inj htext
                rw [size_cons] at hsize
                have hcut := ih.mpr ⟨htail, rfl⟩
                have hrest : offset + 1 - symbol.utf8Size = size before := by
                  omega
                rw [if_pos (by omega), hrest, hcut]
                rfl

theorem boundary_iff {text : List Char} {offset : ℕ} :
    Boundary text offset ↔
      ∃ before after, text = before ++ after ∧ size before = offset := by
  rw [Boundary, Option.isSome_iff_exists]
  constructor
  · rintro ⟨⟨before, after⟩, hcut⟩
    exact ⟨before, after, cut_eq_some.mp hcut⟩
  · rintro ⟨before, after, htext⟩
    exact ⟨(before, after), cut_eq_some.mpr htext⟩

theorem replaceRange_eq_some {text replacement result : List Char}
    {start length : ℕ} :
    replaceRange text start length replacement = some result ↔
      ∃ before middle after, text = before ++ middle ++ after ∧
        size before = start ∧ size middle = length ∧
        result = before ++ replacement ++ after := by
  rw [replaceRange]
  constructor
  · intro hreplace
    obtain ⟨⟨before, rest⟩, hfirst, hrest⟩ := Option.bind_eq_some_iff.mp hreplace
    obtain ⟨⟨middle, after⟩, hsecond, hresult⟩ :=
      Option.bind_eq_some_iff.mp hrest
    obtain ⟨htext, hbefore⟩ := cut_eq_some.mp hfirst
    obtain ⟨hrest, hmiddle⟩ := cut_eq_some.mp hsecond
    refine ⟨before, middle, after, ?_, hbefore, hmiddle, ?_⟩
    · rw [htext, hrest, List.append_assoc]
    · exact (Option.some.inj hresult).symm
  · rintro ⟨before, middle, after, htext, hbefore, hmiddle, hresult⟩
    have hfirst : cut start text = some (before, middle ++ after) :=
      cut_eq_some.mpr ⟨by rw [htext, List.append_assoc], hbefore⟩
    have hsecond : cut length (middle ++ after) = some (middle, after) :=
      cut_eq_some.mpr ⟨rfl, hmiddle⟩
    simp only [hfirst, hsecond, Option.bind_eq_bind, Option.bind_some, hresult]

/-- A replacement takes place exactly where both its ends are boundaries. -/
theorem replaceRange_isSome {text : List Char} {start length : ℕ}
    (replacement : List Char) :
    (replaceRange text start length replacement).isSome = true ↔
      Boundary text start ∧ Boundary text (start + length) := by
  rw [Option.isSome_iff_exists, boundary_iff, boundary_iff]
  constructor
  · rintro ⟨result, hresult⟩
    obtain ⟨before, middle, after, htext, hbefore, hmiddle, _⟩ :=
      replaceRange_eq_some.mp hresult
    refine ⟨⟨before, middle ++ after, ?_, hbefore⟩,
      ⟨before ++ middle, after, htext, ?_⟩⟩
    · rw [htext, List.append_assoc]
    · rw [size_append, hbefore, hmiddle]
  · rintro ⟨⟨before, rest, htext, hbefore⟩, ⟨upto, after, htext', hupto⟩⟩
    rw [htext] at htext'
    rcases List.append_eq_append_iff.mp htext' with
      ⟨middle, hmiddle, hrest⟩ | ⟨excess, hexcess, hafter⟩
    · refine ⟨_, replaceRange_eq_some.mpr
        ⟨before, middle, after, ?_, hbefore, ?_, rfl⟩⟩
      · rw [htext, hrest, List.append_assoc]
      · rw [hmiddle, size_append] at hupto
        omega
    · -- The second end is not before the first, so nothing is in excess.
      have hsize : size excess = 0 := by
        rw [hexcess, size_append] at hbefore
        omega
      have hnil : excess = [] := size_eq_zero.mp hsize
      rw [hnil, List.append_nil] at hexcess
      rw [hnil, List.nil_append] at hafter
      refine ⟨_, replaceRange_eq_some.mpr
        ⟨before, [], rest, ?_, hbefore, ?_, rfl⟩⟩
      · rw [htext, List.append_nil]
      · rw [← hexcess, hbefore] at hupto
        rw [size_nil]
        omega

/-- Two beginnings of one text of the same size are equal. -/
theorem eq_of_append_eq {before before' after after' : List Char}
    (htext : before ++ after = before' ++ after')
    (hsize : size before = size before') : before = before' ∧ after = after' := by
  have hfirst := cut_eq_some.mpr
    ⟨(rfl : before ++ after = before ++ after), hsize⟩
  have hsecond := cut_eq_some.mpr ⟨htext, (rfl : size before' = size before')⟩
  rw [hfirst] at hsecond
  have hpair := Option.some.inj hsecond
  exact ⟨congrArg Prod.fst hpair, congrArg Prod.snd hpair⟩

/-- A beginning of a text is a beginning of a longer one. -/
theorem append_of_size_le {before before' after after' : List Char}
    (htext : before ++ after = before' ++ after')
    (hsize : size before ≤ size before') :
    ∃ middle, before' = before ++ middle ∧ after = middle ++ after' := by
  rcases List.append_eq_append_iff.mp htext with
    ⟨middle, hbefore, hafter⟩ | ⟨excess, hexcess, hafter⟩
  · exact ⟨middle, hbefore, hafter⟩
  · have hnil : excess = [] := by
      rw [← size_eq_zero]
      rw [hexcess, size_append] at hsize
      omega
    rw [hnil, List.append_nil] at hexcess
    rw [hnil, List.nil_append] at hafter
    exact ⟨[], by rw [hexcess, List.append_nil], by rw [hafter, List.nil_append]⟩

/-! ## Lines and their endings -/

/-- A line as `str::lines` yields it, and what was stripped from it. -/
structure Line where
  text : List Char
  ending : List Char
  deriving DecidableEq, Repr

/-- The whole line, its ending included. -/
def Line.raw (line : Line) : List Char := line.text ++ line.ending

/-- A line that ended with a newline: a carriage return before it belongs to
the ending. -/
def endedLine (symbols : List Char) : Line :=
  if symbols.getLast? = some '\r' then ⟨symbols.dropLast, ['\r', '\n']⟩
  else ⟨symbols, ['\n']⟩

/-- The lines of a text, with the symbols of the line at hand before it. -/
def linesFrom (current : List Char) : List Char → List Line
  | [] => if current.isEmpty then [] else [⟨current, []⟩]
  | symbol :: text =>
      if symbol = '\n' then endedLine current :: linesFrom [] text
      else linesFrom (current ++ [symbol]) text

def splitLines (text : List Char) : List Line := linesFrom [] text

/-- `str::lines`. -/
def lines (text : List Char) : List (List Char) :=
  (splitLines text).map Line.text

/-- The lines put together again. -/
def joinLines (lines : List Line) : List Char := lines.flatMap Line.raw

@[simp]
theorem joinLines_nil : joinLines [] = [] := rfl

@[simp]
theorem joinLines_cons (line : Line) (lines : List Line) :
    joinLines (line :: lines) = line.raw ++ joinLines lines := rfl

@[simp]
theorem joinLines_append (first second : List Line) :
    joinLines (first ++ second) = joinLines first ++ joinLines second :=
  List.flatMap_append

theorem raw_endedLine (symbols : List Char) :
    (endedLine symbols).raw = symbols ++ ['\n'] := by
  unfold endedLine
  split
  · next hlast =>
      obtain ⟨before, rfl⟩ := List.getLast?_eq_some_iff.mp hlast
      simp [Line.raw]
  · rfl

theorem joinLines_linesFrom (current text : List Char) :
    joinLines (linesFrom current text) = current ++ text := by
  induction text generalizing current with
  | nil =>
      rw [linesFrom]
      split
      · next hcurrent =>
          rw [List.isEmpty_iff.mp hcurrent]
          rfl
      · simp [Line.raw]
  | cons symbol text ih =>
      rw [linesFrom]
      split
      · next hsymbol =>
          rw [joinLines_cons, ih, raw_endedLine, hsymbol]
          simp
      · rw [ih]
        simp

/-- Nothing of a text is lost in its lines. -/
theorem joinLines_splitLines (text : List Char) :
    joinLines (splitLines text) = text := by
  rw [splitLines, joinLines_linesFrom, List.nil_append]

@[simp]
theorem splitLines_eq_nil {text : List Char} : splitLines text = [] ↔ text = [] := by
  constructor
  · intro hlines
    have hjoin := joinLines_splitLines text
    rw [hlines] at hjoin
    exact hjoin.symm
  · rintro rfl
    rfl

/-- The ending of a line. -/
def Line.Ended (line : Line) : Prop :=
  line.ending = ['\n'] ∨ line.ending = ['\r', '\n']

theorem ended_endedLine (symbols : List Char) : (endedLine symbols).Ended := by
  unfold endedLine
  split
  · exact .inr rfl
  · exact .inl rfl

/-- All lines are ended, the last one perhaps not. -/
theorem ended_linesFrom (current text : List Char) (line : Line)
    (before after : List Line)
    (hlines : linesFrom current text = before ++ line :: after)
    (hafter : after ≠ []) : line.Ended := by
  induction text generalizing current before with
  | nil =>
      rw [linesFrom] at hlines
      split at hlines
      · simp at hlines
      · have hlength := congrArg List.length hlines
        have hpos := List.length_pos_of_ne_nil hafter
        simp at hlength
        omega
  | cons symbol text ih =>
      rw [linesFrom] at hlines
      split at hlines
      · cases before with
        | nil =>
            rw [List.nil_append] at hlines
            rw [← (List.cons.inj hlines).1]
            exact ended_endedLine current
        | cons head before =>
            rw [List.cons_append] at hlines
            exact ih [] before (List.cons.inj hlines).2
      · exact ih _ before hlines

theorem ending_linesFrom (current text : List Char) {line : Line}
    (hline : line ∈ linesFrom current text) :
    line.Ended ∨ line.ending = [] := by
  induction text generalizing current with
  | nil =>
      rw [linesFrom] at hline
      split at hline
      · cases hline
      · rw [List.mem_singleton.mp hline]
        exact .inr rfl
  | cons symbol text ih =>
      rw [linesFrom] at hline
      split at hline
      · rcases List.mem_cons.mp hline with rfl | hmem
        · exact .inl (ended_endedLine current)
        · exact ih [] hmem
      · exact ih _ hline

/-- A text starts a line: it is empty or ends with a newline. -/
def StartsLine (text : List Char) : Prop :=
  text = [] ∨ text.getLast? = some '\n'

instance (text : List Char) : Decidable (StartsLine text) :=
  inferInstanceAs (Decidable (_ ∨ _))

theorem StartsLine.append {before text : List Char} (hbefore : StartsLine before)
    (htext : StartsLine text) : StartsLine (before ++ text) := by
  rcases htext with rfl | hlast
  · rw [List.append_nil]
    exact hbefore
  · right
    rw [List.getLast?_append, hlast]
    rfl

theorem StartsLine.of_append {before text : List Char}
    (happend : StartsLine (before ++ text)) : StartsLine text := by
  rcases happend with hnil | hlast
  · exact .inl (List.append_eq_nil_iff.mp hnil).2
  · cases htext : text.getLast? with
    | none => exact .inl (List.getLast?_eq_none_iff.mp htext)
    | some symbol =>
        rw [List.getLast?_append, htext, Option.some_or] at hlast
        exact .inr (htext.trans hlast)

theorem startsLine_raw {line : Line} (hline : line.Ended) :
    StartsLine line.raw := by
  right
  rcases hline with hending | hending
  · simp [Line.raw, hending]
  · simp [Line.raw, hending]

theorem startsLine_joinLines {lines : List Line}
    (hlines : ∀ line ∈ lines, line.Ended) : StartsLine (joinLines lines) := by
  induction lines with
  | nil => exact .inl rfl
  | cons line lines ih =>
      rw [joinLines_cons]
      exact (startsLine_raw (hlines line List.mem_cons_self)).append
        (ih fun other hother => hlines other (List.mem_cons_of_mem _ hother))

/-- What ends with a newline is split on its own. -/
theorem linesFrom_append (current before after : List Char) :
    linesFrom current (before ++ '\n' :: after) =
      linesFrom current (before ++ ['\n']) ++ splitLines after := by
  induction before generalizing current with
  | nil => simp [linesFrom, splitLines]
  | cons symbol before ih =>
      rw [List.cons_append, List.cons_append, linesFrom, linesFrom]
      split
      · rw [ih, List.cons_append]
      · rw [ih]

theorem splitLines_append {before : List Char} (hlast : before.getLast? = some '\n')
    (after : List Char) :
    splitLines (before ++ after) = splitLines before ++ splitLines after := by
  obtain ⟨start, rfl⟩ := List.getLast?_eq_some_iff.mp hlast
  rw [List.append_assoc, List.singleton_append]
  exact linesFrom_append [] start after

/-- What has no newline only begins the line at hand. -/
theorem linesFrom_of_no_newline {start : List Char} (hstart : '\n' ∉ start)
    (current rest : List Char) :
    linesFrom current (start ++ rest) = linesFrom (current ++ start) rest := by
  induction start generalizing current with
  | nil => rw [List.nil_append, List.append_nil]
  | cons symbol start ih =>
      rw [List.mem_cons, not_or] at hstart
      rw [List.cons_append, linesFrom, if_neg (Ne.symm hstart.1), ih hstart.2]
      simp

/-- A text with a newline has a first line, which the symbols at hand begin. -/
theorem linesFrom_eq_cons (current text rest : List Char) :
    ∃ middle lines, linesFrom current (text ++ '\n' :: rest) =
      endedLine (current ++ middle) :: lines := by
  induction text generalizing current with
  | nil => exact ⟨[], splitLines rest, by simp [linesFrom, splitLines]⟩
  | cons symbol text ih =>
      rw [List.cons_append, linesFrom]
      split
      · exact ⟨[], _, by rw [List.append_nil]⟩
      · obtain ⟨middle, lines, hlines⟩ := ih (current ++ [symbol])
        exact ⟨symbol :: middle, lines, by rw [hlines]; simp⟩

/-- A line that is not begun by a carriage return alone keeps its beginning. -/
theorem isPrefix_text_endedLine {start : List Char}
    (hstart : start.getLast? ≠ some '\r') (rest : List Char) :
    start <+: (endedLine (start ++ rest)).text := by
  rw [endedLine]
  split
  · next hlast =>
      rcases eq_or_ne rest [] with rfl | hrest
      · exact absurd (by rwa [List.append_nil] at hlast) hstart
      · rw [List.dropLast_append_of_ne_nil hrest]
        exact List.prefix_append ..
  · exact List.prefix_append ..

theorem newline_not_mem_endedLine {symbols : List Char} (hsymbols : '\n' ∉ symbols) :
    '\n' ∉ (endedLine symbols).text := by
  rw [endedLine]
  split
  · exact fun hmem => hsymbols (List.dropLast_subset symbols hmem)
  · exact hsymbols

theorem newline_not_mem_linesFrom {current : List Char} (hcurrent : '\n' ∉ current)
    (text : List Char) {line : Line} (hline : line ∈ linesFrom current text) :
    '\n' ∉ line.text := by
  induction text generalizing current with
  | nil =>
      rw [linesFrom] at hline
      split at hline
      · cases hline
      · rw [List.mem_singleton.mp hline]
        exact hcurrent
  | cons symbol text ih =>
      rw [linesFrom] at hline
      split at hline
      · rcases List.mem_cons.mp hline with rfl | hmem
        · exact newline_not_mem_endedLine hcurrent
        · exact ih List.not_mem_nil hmem
      · next hsymbol =>
          apply ih _ hline
          rw [List.mem_append, List.mem_singleton, not_or]
          exact ⟨hcurrent, Ne.symm hsymbol⟩

theorem length_linesFrom_le (current text : List Char) :
    (linesFrom current text).length ≤ size current + size text := by
  induction text generalizing current with
  | nil =>
      rw [linesFrom]
      split_ifs with hcurrent
      · exact Nat.zero_le _
      · have hpos : size current ≠ 0 := by
          intro hzero
          exact hcurrent (List.isEmpty_iff.2 (size_eq_zero.1 hzero))
        rw [List.length_singleton]
        omega
  | cons symbol text ih =>
      have hsymbol := symbol.utf8Size_pos
      rw [linesFrom, size_cons]
      split_ifs
      · have hrest := ih []
        rw [size_nil] at hrest
        rw [List.length_cons]
        omega
      · have hrest := ih (current ++ [symbol])
        rw [size_append, size_cons, size_nil] at hrest
        omega

/-- A line takes a byte at least. -/
theorem length_lines_le (content : List Char) : (lines content).length ≤ size content := by
  have hlength := length_linesFrom_le [] content
  rw [size_nil, Nat.zero_add] at hlength
  rwa [lines, List.length_map, splitLines]

/-! ## Dropping a number of bytes -/

/-- What is left of a text without its first bytes, read as lossy UTF-8: the
remaining bytes of a symbol that is cut through are replaced one by one. -/
def lossyDrop : ℕ → List Char → List Char
  | 0, text => text
  | _ + 1, [] => []
  | offset + 1, symbol :: text =>
      if symbol.utf8Size ≤ offset + 1 then
        lossyDrop (offset + 1 - symbol.utf8Size) text
      else List.replicate (symbol.utf8Size - (offset + 1)) (Char.ofNat 0xFFFD) ++ text
  termination_by structural _ text => text

theorem lossyDrop_size_append (before after : List Char) :
    lossyDrop (size before) (before ++ after) = after := by
  induction before with
  | nil => cases after <;> rfl
  | cons symbol before ih =>
      have hpos : 0 < symbol.utf8Size := symbol.utf8Size_pos
      obtain ⟨offset, hoffset⟩ : ∃ offset, symbol.utf8Size + size before = offset + 1 :=
        ⟨symbol.utf8Size + size before - 1, by omega⟩
      rw [size_cons, List.cons_append, hoffset, lossyDrop, if_pos (by omega), ← hoffset,
        Nat.add_sub_cancel_left, ih]

end Kitaebot.ByteText
