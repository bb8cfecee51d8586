import Kitaebot.Core.Substitute
import Kitaebot.Tools.FileEditWindow

/-!
# When a file edit faults

An exact replacement cuts at the ends of its matches, which are boundaries.  A
fuzzy one cuts where the two-byte line ends have moved its span, and the echo
numbers the lines of a text that may have none left.
-/

namespace Kitaebot.FileEdit

open ByteText

/-! ## Exact replacements -/

section Exact

variable {old : List Char}

theorem size_singleton (symbol : Char) : size [symbol] = symbol.utf8Size := by
  rw [size_cons, size_nil, Nat.add_zero]

/-- Replacing the matches from the last one back replaces every occurrence. -/
theorem foldrM_splice (hold : old ≠ []) (replacement : List Char)
    (text : List Char) (skip : ℕ) (hskip : skip ≤ text.length)
    (before : List Char) :
    ((matchesFrom old (size before) skip text).map fun start =>
        (⟨start, size old⟩ : Span)).foldrM
      (fun span result => splice result span.start span.len replacement)
      (before ++ text) =
    .ok (before ++ text.take skip ++
      Substitute.replaceFrom old replacement skip text) := by
  induction text generalizing skip before with
  | nil => simp [matchesFrom, Substitute.replaceFrom, pure, Except.pure]
  | cons symbol text ih =>
      have hoffset : size before + symbol.utf8Size = size (before ++ [symbol]) := by
        rw [size_append, size_singleton]
      have htext : before ++ symbol :: text = (before ++ [symbol]) ++ text := by
        simp
      cases skip with
      | succ skip =>
          rw [matchesFrom, hoffset, htext, ih skip (Nat.le_of_succ_le_succ hskip),
            Substitute.replaceFrom, List.take_succ_cons]
          simp
      | zero =>
          rw [matchesFrom, Substitute.replaceFrom]
          by_cases hmatch : old.isPrefixOf (symbol :: text) = true
          · have hstarts := List.isPrefixOf_iff_prefix.mp hmatch
            have hlength : old.length - 1 ≤ text.length := by
              have hle := hstarts.length_le
              rw [List.length_cons] at hle
              omega
            have hpos := List.length_pos_of_ne_nil hold
            have hpattern : old = [symbol] ++ text.take (old.length - 1) := by
              have htake := List.prefix_iff_eq_take.mp hstarts
              rw [show old.length = (old.length - 1) + 1 by omega,
                List.take_succ_cons] at htake
              rw [List.singleton_append]
              exact htake
            rw [if_pos hmatch, if_pos hmatch, List.map_cons, List.foldrM_cons,
              hoffset, htext, ih (old.length - 1) hlength]
            simp only [bind, Except.bind, splice]
            have hreplace : replaceRange (before ++ [symbol] ++
                  text.take (old.length - 1) ++ Substitute.replaceFrom old
                    replacement (old.length - 1) text)
                (size before) (size old) replacement =
                some (before ++ replacement ++ Substitute.replaceFrom old
                  replacement (old.length - 1) text) := by
              apply replaceRange_eq_some.mpr
              refine ⟨before, old, _, ?_, rfl, rfl, rfl⟩
              rw [List.append_assoc before, ← hpattern]
            rw [hreplace]
            simp
          · rw [if_neg hmatch, if_neg hmatch, hoffset, htext,
              ih 0 (Nat.zero_le _)]
            simp

theorem spliceAll_exact (hold : old ≠ []) (content replacement : List Char) :
    spliceAll content (exactSpans content old) replacement =
      .ok (Substitute.replace old replacement content) := by
  have hfold := foldrM_splice hold replacement content 0 (Nat.zero_le _) []
  rw [spliceAll, List.foldlM_reverse]
  exact hfold

/-- Each replacement trades the bytes of one match for its own. -/
theorem size_replaceFrom (hold : old ≠ []) (replacement text : List Char)
    (offset skip : ℕ) (hskip : skip ≤ text.length) :
    ∃ kept,
      size text = size (text.take skip) +
          (matchesFrom old offset skip text).length * size old + kept ∧
        size (Substitute.replaceFrom old replacement skip text) =
          (matchesFrom old offset skip text).length * size replacement + kept := by
  induction text generalizing offset skip with
  | nil => exact ⟨0, by simp [matchesFrom], by simp [matchesFrom,
      Substitute.replaceFrom]⟩
  | cons symbol text ih =>
      cases skip with
      | succ skip =>
          obtain ⟨kept, htext, hresult⟩ := ih (offset + symbol.utf8Size) skip
            (Nat.le_of_succ_le_succ hskip)
          refine ⟨kept, ?_, ?_⟩
          · rw [matchesFrom, List.take_succ_cons, size_cons, size_cons]
            omega
          · rw [matchesFrom, Substitute.replaceFrom]
            exact hresult
      | zero =>
          rw [matchesFrom, Substitute.replaceFrom]
          by_cases hmatch : old.isPrefixOf (symbol :: text) = true
          · have hstarts := List.isPrefixOf_iff_prefix.mp hmatch
            have hlength : old.length - 1 ≤ text.length := by
              have hle := hstarts.length_le
              rw [List.length_cons] at hle
              omega
            have hpos := List.length_pos_of_ne_nil hold
            have hpattern : old = symbol :: text.take (old.length - 1) := by
              have htake := List.prefix_iff_eq_take.mp hstarts
              rwa [show old.length = (old.length - 1) + 1 by omega,
                List.take_succ_cons] at htake
            have hsize := congrArg size hpattern
            rw [size_cons] at hsize
            obtain ⟨kept, htext, hresult⟩ := ih (offset + symbol.utf8Size)
              (old.length - 1) hlength
            rw [if_pos hmatch, if_pos hmatch]
            refine ⟨kept, ?_, ?_⟩
            · rw [List.length_cons, Nat.add_mul, Nat.one_mul, size_cons,
                List.take_zero, size_nil]
              omega
            · rw [size_append, List.length_cons, Nat.add_mul, Nat.one_mul]
              omega
          · obtain ⟨kept, htext, hresult⟩ := ih (offset + symbol.utf8Size) 0
              (Nat.zero_le _)
            rw [List.take_zero, size_nil] at htext
            rw [if_neg hmatch, if_neg hmatch]
            refine ⟨kept + symbol.utf8Size, ?_, ?_⟩
            · rw [size_cons, List.take_zero, size_nil]
              omega
            · rw [size_cons]
              omega

/-- A match lies within the text. -/
theorem matchesFrom_le {text : List Char} {offset skip start : ℕ}
    (hstart : start ∈ matchesFrom old offset skip text) :
    start ≤ offset + size text := by
  induction text generalizing offset skip with
  | nil => cases hstart
  | cons symbol text ih =>
      rw [size_cons]
      cases skip with
      | succ skip =>
          have hrest := ih hstart
          omega
      | zero =>
          rw [matchesFrom] at hstart
          split at hstart
          · rcases List.mem_cons.mp hstart with rfl | hlater
            · omega
            · have hrest := ih hlater
              omega
          · have hrest := ih hstart
            omega

/-- The first match is where the first replacement stands. -/
theorem replaceFrom_first (replacement : List Char) {text : List Char}
    {offset start : ℕ} {later : List ℕ}
    (hmatches : matchesFrom old offset 0 text = start :: later) :
    ∃ before after, offset + size before = start ∧
      Substitute.replaceFrom old replacement 0 text =
        before ++ replacement ++ after := by
  induction text generalizing offset with
  | nil => cases hmatches
  | cons symbol text ih =>
      rw [matchesFrom] at hmatches
      rw [Substitute.replaceFrom]
      split at hmatches
      · next hmatch =>
          rw [if_pos hmatch]
          exact ⟨[], _, (List.cons.inj hmatches).1, rfl⟩
      · next hmatch =>
          obtain ⟨before, after, hoffset, hresult⟩ := ih hmatches
          rw [if_neg hmatch, hresult]
          refine ⟨symbol :: before, after, ?_, rfl⟩
          rw [size_cons]
          omega

end Exact

/-! ## The edit that is made -/

/-- The spans of a rung are replaced: a single one, or all the exact ones. -/
def Applies (args : Args) (rung : Rung) (spans : List Span) : Prop :=
  spans.length = 1 ∨ (rung = .exact ∧ args.replaceAll = true)

instance (args : Args) (rung : Rung) (spans : List Span) :
    Decidable (Applies args rung spans) :=
  inferInstanceAs (Decidable (_ ∨ _))

/-- Both ends of a span are between two symbols. -/
def Span.OnSymbols (content : List Char) (span : Span) : Prop :=
  Boundary content span.start ∧ Boundary content (span.start + span.len)

/-- A result of an edit at a place, with room for the echo, and empty only when
the whole text was replaced by nothing. -/
structure Lands (file : List Char) (args : Args) (spans : List Span)
    (result : List Char) (editedAt : ℕ) : Prop where
  room : editedAt + size args.newString ≤ size result
  empty : result = [] ↔
    args.newString = [] ∧ (spans.map Span.len).sum = size file

theorem findMatches_exact {file old : List Char} {spans : List Span}
    (hmatches : findMatches file old = some (.exact, spans)) :
    spans = exactSpans file old ∧ spans ≠ [] := by
  simp only [findMatches] at hmatches
  split at hmatches
  · next hsome =>
      obtain ⟨_, rfl⟩ := Prod.mk.injEq .. ▸ Option.some.inj hmatches
      exact ⟨rfl, by simpa using hsome⟩
  · obtain ⟨rung, _, hrung⟩ := List.exists_of_findSome?_eq_some hmatches
    split at hrung
    · cases hrung
    · cases hrung

/-- A fuzzy match is the windows of the first rung that has one. -/
theorem findMatches_fuzzy {file old : List Char} {name : String}
    {spans : List Span}
    (hmatches : findMatches file old = some (.fuzzy name, spans)) :
    exactSpans file old = [] ∧ ∃ earlier normalize later,
      fuzzyRungs = earlier ++ (name, normalize) :: later ∧
        (∀ rung ∈ earlier, windowStarts file old rung.2 = []) ∧
        spans = windowSpans file old normalize ∧ spans ≠ [] := by
  simp only [findMatches] at hmatches
  split at hmatches
  · cases hmatches
  · next hexact =>
      refine ⟨by simpa using hexact, ?_⟩
      obtain ⟨earlier, ⟨found, normalize⟩, later, hrungs, hrung, hearlier⟩ :=
        List.findSome?_eq_some_iff.mp hmatches
      split at hrung
      · cases hrung
      · next hspans =>
          obtain ⟨hname, rfl⟩ := Prod.mk.injEq .. ▸ Option.some.inj hrung
          obtain rfl := Rung.fuzzy.inj hname
          refine ⟨earlier, normalize, later, hrungs, ?_, rfl,
            by simpa using hspans⟩
          intro rung hmem
          have hnone := hearlier rung hmem
          split at hnone
          · next hempty => simpa [windowSpans] using hempty
          · cases hnone

/-- A fuzzy match of one span is a unique window. -/
theorem fuzzyWindow_of_findMatches {file old : List Char} {name : String}
    {span : Span}
    (hmatches : findMatches file old = some (.fuzzy name, [span])) :
    ∃ start, FuzzyWindow file old name start ∧
      span = windowSpan (lines file) (lines old).length start := by
  obtain ⟨hexact, earlier, normalize, later, hrungs, hearlier, hspans, _⟩ :=
    findMatches_fuzzy hmatches
  rw [windowSpans] at hspans
  obtain ⟨start, hstarts, hspan⟩ := List.map_eq_singleton_iff.mp hspans.symm
  exact ⟨start, ⟨hexact, earlier, normalize, later, hrungs, hearlier, hstarts⟩,
    hspan.symm⟩

theorem exactSpans_onSymbols {file old : List Char} (hold : old ≠ [])
    {span : Span} (hspans : exactSpans file old = [span]) :
    span.OnSymbols file := by
  have hall := spliceAll_exact hold file []
  rw [hspans] at hall
  rw [Span.OnSymbols, ← replaceRange_isSome []]
  cases hreplace : replaceRange file span.start span.len [] with
  | some result => rfl
  | none =>
      simp [spliceAll, splice, hreplace, bind, Except.bind] at hall

theorem lands_exact {file : List Char} {args : Args}
    (hold : args.oldString ≠ []) {first : Span} {later : List Span}
    (hspans : exactSpans file args.oldString = first :: later) :
    Lands file args (first :: later)
      (Substitute.replace args.oldString args.newString file) first.start := by
  obtain ⟨kept, hfile, hresult⟩ := size_replaceFrom hold args.newString file 0 0
    (Nat.zero_le _)
  rw [List.take_zero, size_nil, Nat.zero_add] at hfile
  have hlength : (matchesFrom args.oldString 0 0 file).length =
      later.length + 1 := by
    have hsame := congrArg List.length hspans
    rwa [exactSpans, List.length_map, List.length_cons, matchIndices] at hsame
  have hsum : ((first :: later).map Span.len).sum =
      (later.length + 1) * size args.oldString := by
    rw [← hspans, exactSpans, List.map_map]
    have hconst : (Span.len ∘ fun start : ℕ =>
        (⟨start, size args.oldString⟩ : Span)) =
        fun _ => size args.oldString := rfl
    rw [hconst, List.map_const', List.sum_replicate_nat, matchIndices, hlength]
  have hmatches : ∃ rest, matchesFrom args.oldString 0 0 file =
      first.start :: rest := by
    rw [exactSpans, matchIndices] at hspans
    cases hlist : matchesFrom args.oldString 0 0 file with
    | nil =>
        rw [hlist] at hspans
        cases hspans
    | cons start rest =>
        rw [hlist, List.map_cons] at hspans
        have hstart := (List.cons.inj hspans).1
        exact ⟨rest, by rw [← hstart]⟩
  obtain ⟨rest, hmatches⟩ := hmatches
  obtain ⟨before, after, hbefore, hreplaced⟩ :=
    replaceFrom_first args.newString hmatches
  rw [Nat.zero_add] at hbefore
  rw [hlength] at hfile hresult
  constructor
  · rw [Substitute.replace, hreplaced, size_append, size_append]
    omega
  · rw [hsum, ← size_eq_zero, Substitute.replace, hresult]
    constructor
    · intro hzero
      have hkept : kept = 0 := by omega
      have hnew : (later.length + 1) * size args.newString = 0 := by omega
      refine ⟨?_, by omega⟩
      rw [← size_eq_zero]
      exact (Nat.mul_eq_zero.mp hnew).resolve_left (Nat.succ_ne_zero _)
    · rintro ⟨hnew, hcovers⟩
      rw [hnew, size_nil, Nat.mul_zero]
      omega

theorem lands_single {file : List Char} {args : Args} {span : Span}
    {result : List Char}
    (hreplace : replaceRange file span.start span.len args.newString =
      some result) : Lands file args [span] result span.start := by
  obtain ⟨before, middle, after, htext, hbefore, hmiddle, hresult⟩ :=
    replaceRange_eq_some.mp hreplace
  have hfile := congrArg size htext
  rw [size_append, size_append] at hfile
  constructor
  · rw [hresult, size_append, size_append]
    omega
  · rw [hresult, List.map_singleton, List.sum_singleton]
    constructor
    · intro hnil
      obtain ⟨hfirst, hafter⟩ := List.append_eq_nil_iff.mp hnil
      obtain ⟨hfirst, hnew⟩ := List.append_eq_nil_iff.mp hfirst
      rw [hfirst, hafter, size_nil] at hfile
      exact ⟨hnew, by omega⟩
    · rintro ⟨hnew, hcovers⟩
      have hnone : before = [] ∧ after = [] := by
        rw [← size_eq_zero, ← size_eq_zero]
        omega
      rw [hnone.1, hnone.2, hnew]
      rfl

/-- What an edit that applies comes to: a result when its spans end on symbols,
a slice fault otherwise. -/
theorem edited_applies {file : List Char} {args : Args}
    (hold : args.oldString ≠ []) {rung : Rung} {spans : List Span}
    (hmatches : findMatches file args.oldString = some (rung, spans))
    (happlies : Applies args rung spans) :
    ((∀ span, spans = [span] → span.OnSymbols file) ∧
        ∃ result editedAt replaced,
          edited file args rung spans = some (.ok (result, editedAt, replaced)) ∧
            Lands file args spans result editedAt) ∨
      ((¬ ∀ span, spans = [span] → span.OnSymbols file) ∧
        edited file args rung spans = some (.error .slice)) := by
  cases spans with
  | nil =>
      rcases happlies with hlength | ⟨rfl, _⟩
      · cases hlength
      · exact absurd rfl (findMatches_exact hmatches).2
  | cons first later =>
      cases later with
      | nil =>
          cases hreplace : replaceRange file first.start first.len
              args.newString with
          | none =>
              right
              constructor
              · intro hall
                have hsome := (replaceRange_isSome args.newString).mpr
                  (hall first rfl)
                rw [hreplace] at hsome
                cases hsome
              · simp only [edited, splice, hreplace, bind, Except.bind]
          | some result =>
              left
              constructor
              · intro span hspan
                rw [← (List.cons.inj hspan).1, Span.OnSymbols,
                  ← replaceRange_isSome args.newString, hreplace]
                rfl
              · refine ⟨result, first.start, 1, ?_, lands_single hreplace⟩
                simp only [edited, splice, hreplace, bind, Except.bind]
      | cons second later =>
          left
          have hexact : rung = .exact ∧ args.replaceAll = true := by
            rcases happlies with hlength | hexact
            · cases hlength
            · exact hexact
          obtain ⟨rfl, hall⟩ := hexact
          have hspans := (findMatches_exact hmatches).1
          refine ⟨?_, _, first.start, later.length + 2, ?_,
            lands_exact hold hspans.symm⟩
          · intro span hspan
            cases hspan
          · have hsplice := spliceAll_exact hold file args.newString
            rw [← hspans] at hsplice
            simp only [edited, hsplice, hall, and_self, if_true, bind,
              Except.bind, List.length_cons]

/-! ## The error texts never fault -/

theorem mem_of_bestEntry {entries : List (ℕ × ℕ)} {best : ℕ × ℕ}
    (hbest : bestEntry entries = some best) : best ∈ entries := by
  induction entries generalizing best with
  | nil => cases hbest
  | cons entry entries ih =>
      rw [bestEntry] at hbest
      cases hrest : bestEntry entries with
      | none =>
          simp only [hrest, Option.some.injEq] at hbest
          exact hbest ▸ List.mem_cons_self
      | some other =>
          simp only [hrest] at hbest
          split at hbest
          · rw [← Option.some.inj hbest]
            exact List.mem_cons_of_mem _ (ih hrest)
          · rw [← Option.some.inj hbest]
            exact List.mem_cons_self

theorem nearestLine_range {content old : List Char} {line : ℕ}
    (hline : nearestLine content old = some line) :
    0 < line ∧ line ≤ (lines content).length := by
  obtain ⟨best, hbest, hvalue⟩ := Option.map_eq_some_iff.mp hline
  have hindex := List.snd_lt_of_mem_zipIdx (mem_of_bestEntry hbest)
  rw [List.length_map] at hindex
  split at hvalue
  · omega
  · omega

theorem staleReadMessage_ok (content old : List Char) (path : String) :
    ∃ text, staleReadMessage content old path = .ok text := by
  cases hnearest : nearestLine content old with
  | none =>
      simp only [staleReadMessage, hnearest, bind, Except.bind]
      exact ⟨_, rfl⟩
  | some line =>
      obtain ⟨hpos, hle⟩ := nearestLine_range hnearest
      have hnumbered : ∃ text, numberedLines content
          (max (line - contextLines) 1)
          (min (line + contextLines) (lines content).length) = .ok text := by
        apply numberedLines_ok
        · omega
        · omega
        · rw [contextLines]
          omega
      obtain ⟨numbered, hnumbered⟩ := hnumbered
      simp only [staleReadMessage, hnearest, excerptAround, hnumbered, bind,
        Except.bind]
      exact ⟨_, rfl⟩

theorem mapM_ok {Source Target Error : Type} {f : Source → Except Error Target}
    {sources : List Source} (hall : ∀ source ∈ sources, ∃ target,
      f source = .ok target) : ∃ targets, sources.mapM f = .ok targets := by
  induction sources with
  | nil => exact ⟨[], rfl⟩
  | cons source sources ih =>
      obtain ⟨target, htarget⟩ := hall source List.mem_cons_self
      obtain ⟨targets, htargets⟩ :=
        ih fun other hother => hall other (List.mem_cons_of_mem _ hother)
      refine ⟨target :: targets, ?_⟩
      rw [List.mapM_cons, htarget, htargets]
      rfl

theorem ambiguousMessage_ok (rung : Rung) {spans : List Span}
    {content : List Char} (hspans : ∀ span ∈ spans, span.start ≤ size content)
    (path : String) :
    ∃ text, ambiguousMessage rung spans content path = .ok text := by
  have hlines : ∃ numbers, spans.mapM (fun span => lineOf content span.start) =
      Except.ok numbers := by
    apply mapM_ok
    intro span hspan
    exact ⟨_, if_pos (hspans span hspan)⟩
  obtain ⟨numbers, hnumbers⟩ := hlines
  simp only [ambiguousMessage, hnumbers, bind, Except.bind]
  exact ⟨_, rfl⟩

/-- Every match starts within the text. -/
theorem findMatches_start_le {file old : List Char} {rung : Rung}
    {spans : List Span} (hmatches : findMatches file old = some (rung, spans))
    {span : Span} (hspan : span ∈ spans) : span.start ≤ size file := by
  cases rung with
  | exact =>
      rw [(findMatches_exact hmatches).1] at hspan
      obtain ⟨start, hstart, rfl⟩ := List.mem_map.mp hspan
      have hle := matchesFrom_le hstart
      rwa [Nat.zero_add] at hle
  | fuzzy name =>
      obtain ⟨_, _, normalize, _, _, _, hspans, _⟩ := findMatches_fuzzy hmatches
      rw [hspans, windowSpans] at hspan
      obtain ⟨start, hstart, rfl⟩ := List.mem_map.mp hspan
      obtain ⟨hpos, hinside⟩ := mem_windowStarts hstart
      have hbefore : (windowSpan (lines file) (lines old).length start).start +
            crlfs ((splitLines file).take start) =
          size (beforeWindow file start) := span_start (by omega)
      have hsize := congrArg size (content_eq file start (lines old).length)
      rw [size_append, size_append] at hsize
      omega

/-! ## The tool never faults, except -/

def Faultless (attempt : Attempt) : Prop :=
  ∀ fault, attempt.outcome ≠ .error fault

theorem faultless_ok {file : List Char} {history : EditHistory}
    (answer : Except EditError String) :
    Faultless ⟨file, history, .ok answer⟩ :=
  fun _ heq => by cases heq

theorem futile_faultless (around : Surroundings) (history : EditHistory)
    (file : List Char) (args : Args) (outcome : EditFutility)
    {report : Except Fault (Except EditError String)}
    (hreport : ∃ answer, report = .ok answer) :
    Faultless (futile around history file args outcome report) := by
  obtain ⟨answer, rfl⟩ := hreport
  rw [futile]
  split
  · exact faultless_ok _
  · exact faultless_ok _

/-- The whole text is replaced. -/
def Covered (file : List Char) (args : Args) : Prop :=
  ∃ rung spans, findMatches file args.oldString = some (rung, spans) ∧
    Applies args rung spans ∧ (spans.map Span.len).sum = size file

theorem land_faultless_iff (around : Surroundings) (history : EditHistory)
    (args : Args) {file result : List Char} {spans : List Span}
    {editedAt : ℕ} (replaced : ℕ) (hlands : Lands file args spans result editedAt) :
    Faultless (land around history args result editedAt replaced) ↔
      ¬ (result = [] ∧ (around.write []).2 = none) := by
  rw [land]
  rcases echoRegion_cases hlands.room with ⟨rfl, hecho⟩ | ⟨hne, text, hecho⟩
  · cases hwrite : (around.write []).2 with
    | some source =>
        simp only [reduceCtorEq, and_false, not_false_eq_true, iff_true]
        exact faultless_ok _
    | none =>
        simp only [hecho, bind, Except.bind, and_self, not_true_eq_false,
          iff_false]
        intro hfaultless
        exact hfaultless .underflow rfl
  · have hnot : ¬ (result = [] ∧ (around.write []).2 = none) :=
      fun hboth => hne hboth.1
    simp only [hnot, not_false_eq_true, iff_true]
    split
    · exact faultless_ok _
    · simp only [hecho, bind, Except.bind]
      exact faultless_ok _

/-- Nothing matches in the empty text. -/
theorem findMatches_ne_nil {file old : List Char} {rung : Rung}
    {spans : List Span} (hmatches : findMatches file old = some (rung, spans)) :
    file ≠ [] := by
  rintro rfl
  cases rung with
  | exact =>
      obtain ⟨hspans, hne⟩ := findMatches_exact hmatches
      exact hne hspans
  | fuzzy name =>
      obtain ⟨_, _, normalize, _, _, _, hspans, hne⟩ := findMatches_fuzzy hmatches
      obtain ⟨span, hspan⟩ := List.exists_mem_of_ne_nil _ hne
      rw [hspans, windowSpans] at hspan
      obtain ⟨start, hstart, _⟩ := List.mem_map.mp hspan
      obtain ⟨hpos, hinside⟩ := mem_windowStarts hstart
      have hlines : (splitLines []).length = 0 := rfl
      omega

theorem edited_eq_none {file : List Char} {args : Args} {rung : Rung}
    {spans : List Span} (happlies : ¬ Applies args rung spans) :
    edited file args rung spans = none := by
  obtain ⟨hlength, hall⟩ := not_or.mp happlies
  cases spans with
  | nil => exact if_neg hall
  | cons first later =>
      cases later with
      | nil => exact absurd rfl hlength
      | cons second later => exact if_neg hall

/-- The edit of a file faults where a span ends inside a symbol, and where
nothing is left of the text. -/
theorem editFile_faultless_iff (around : Surroundings) (history : EditHistory)
    {file : List Char} {args : Args} (hold : args.oldString ≠ []) :
    Faultless (editFile around history file args) ↔
      (∀ rung span, findMatches file args.oldString = some (rung, [span]) →
          span.OnSymbols file) ∧
        ¬ (args.newString = [] ∧ Covered file args ∧
          (around.write []).2 = none) := by
  cases hmatches : findMatches file args.oldString with
  | none =>
      have hfaultless : Faultless (editFile around history file args) := by
        obtain ⟨text, htext⟩ := staleReadMessage_ok file args.oldString args.path
        simp only [editFile, hmatches, htext, bind, Except.bind]
        exact futile_faultless _ _ _ _ _ ⟨_, rfl⟩
      refine iff_of_true hfaultless ⟨fun _ _ heq => (by cases heq), ?_⟩
      rintro ⟨_, ⟨rung, spans, hcovered, _⟩, _⟩
      rw [hmatches] at hcovered
      cases hcovered
  | some found =>
      obtain ⟨rung, spans⟩ := found
      have hcovered : Covered file args ↔
          Applies args rung spans ∧ (spans.map Span.len).sum = size file := by
        constructor
        · rintro ⟨rung', spans', heq, happlies, hsum⟩
          rw [hmatches] at heq
          obtain ⟨rfl, rfl⟩ := Prod.mk.injEq .. ▸ Option.some.inj heq
          exact ⟨happlies, hsum⟩
        · rintro ⟨happlies, hsum⟩
          exact ⟨rung, spans, hmatches, happlies, hsum⟩
      have hsymbols : (∀ rung' span, some (rung, spans) = some (rung', [span]) →
          span.OnSymbols file) ↔
          ∀ span, spans = [span] → span.OnSymbols file := by
        constructor
        · intro hall span hspan
          exact hall rung span (by rw [hspan])
        · intro hall rung' span heq
          exact hall span (congrArg Prod.snd (Option.some.inj heq))
      rw [hsymbols, hcovered]
      by_cases happlies : Applies args rung spans
      · rcases edited_applies hold hmatches happlies with
          ⟨honSymbols, result, editedAt, replaced, hedited, hlands⟩ |
            ⟨hoff, hedited⟩
        · have hempty := hlands.empty
          simp only [editFile, hmatches, hedited]
          by_cases hsame : result = file
          · have hne := findMatches_ne_nil hmatches
            rcases echoRegion_cases hlands.room with ⟨hnil, _⟩ | ⟨_, text, hecho⟩
            · exact absurd (hsame ▸ hnil) hne
            · rw [if_pos hsame, hecho]
              refine iff_of_true
                (futile_faultless _ _ _ _ _ ⟨_, rfl⟩) ⟨honSymbols, ?_⟩
              rintro ⟨hnew, ⟨_, hsum⟩, _⟩
              exact hne (hsame ▸ hempty.mpr ⟨hnew, hsum⟩)
          · rw [if_neg hsame, land_faultless_iff around history args replaced
              hlands, hempty]
            constructor
            · intro hnot
              refine ⟨honSymbols, ?_⟩
              rintro ⟨hnew, ⟨_, hsum⟩, hwrite⟩
              exact hnot ⟨⟨hnew, hsum⟩, hwrite⟩
            · rintro ⟨_, hnot⟩ ⟨⟨hnew, hsum⟩, hwrite⟩
              exact hnot ⟨hnew, ⟨happlies, hsum⟩, hwrite⟩
        · have hfault : ¬ Faultless (editFile around history file args) := by
            intro hfaultless
            apply hfaultless .slice
            simp only [editFile, hmatches, hedited]
          exact iff_of_false hfault fun hboth => hoff hboth.1
      · have hfaultless : Faultless (editFile around history file args) := by
          obtain ⟨text, htext⟩ := ambiguousMessage_ok rung
            (fun span hspan => findMatches_start_le hmatches hspan) args.path
          simp only [editFile, hmatches, edited_eq_none happlies, htext, bind,
            Except.bind]
          exact futile_faultless _ _ _ _ _ ⟨_, rfl⟩
        refine iff_of_true hfaultless ⟨?_, fun hboth => happlies hboth.2.1.1⟩
        rintro span rfl
        exact absurd (.inl rfl) happlies

/-! ## The file changes only by an edit that applies -/

theorem futile_file (around : Surroundings) (history : EditHistory)
    (file : List Char) (args : Args) (outcome : EditFutility)
    (report : Except Fault (Except EditError String)) :
    (futile around history file args outcome report).file = file := by
  rw [futile]
  split
  · rfl
  · rfl

/-- A call that touches the file made an edit that applies, and reports no
failure but that of the write. -/
theorem editFile_file (around : Surroundings) (history : EditHistory)
    (file : List Char) (args : Args) :
    (editFile around history file args).file = file ∨
      ((∃ rung spans, findMatches file args.oldString = some (rung, spans) ∧
          Applies args rung spans) ∧
        ∀ error, (editFile around history file args).outcome = .ok (.error error) →
          ∃ source, error = .io "write" args.path source) := by
  cases hmatches : findMatches file args.oldString with
  | none =>
      left
      simp only [editFile, hmatches]
      exact futile_file _ _ _ _ _ _
  | some found =>
      obtain ⟨rung, spans⟩ := found
      by_cases happlies : Applies args rung spans
      · cases hedited : edited file args rung spans with
        | none =>
            left
            simp only [editFile, hmatches, hedited]
            exact futile_file _ _ _ _ _ _
        | some edit =>
            cases edit with
            | error fault =>
                left
                simp only [editFile, hmatches, hedited]
            | ok edit =>
                obtain ⟨result, editedAt, replaced⟩ := edit
                simp only [editFile, hmatches, hedited]
                by_cases hsame : result = file
                · left
                  rw [if_pos hsame]
                  exact futile_file _ _ _ _ _ _
                · right
                  refine ⟨⟨rung, spans, rfl, happlies⟩, ?_⟩
                  rw [if_neg hsame, land]
                  intro error herror
                  cases hwrite : (around.write result).2 with
                  | some source =>
                      simp only [hwrite, Except.ok.injEq, Except.error.injEq]
                        at herror
                      exact ⟨source, herror.symm⟩
                  | none =>
                      simp only [hwrite, bind, Except.bind] at herror
                      split at herror
                      · cases herror
                      · cases herror
      · left
        simp only [editFile, hmatches, edited_eq_none happlies]
        exact futile_file _ _ _ _ _ _

/-! ## Every call -/

/-- The call gets as far as matching. -/
structure Reaches (around : Surroundings) (args : Args) : Prop where
  nonempty : args.oldString ≠ []
  differ : args.oldString ≠ args.newString
  resolves : around.resolveWritable args.path = .ok ()
  reads : around.readError = none

/-- The ends of a window, moved one byte towards the start for every two-byte
line end before them, are between two symbols. -/
def EndsOnSymbols (file : List Char) (start count : ℕ) : Prop :=
  Boundary file (size (beforeWindow file start) -
      crlfs ((splitLines file).take start)) ∧
    Boundary file (size (beforeWindow file start) -
        crlfs ((splitLines file).take start) +
      (size (joinLines (windowLines file start count)) -
        innerCrlfs file start count -
          (if AtEnd file start count then size (lastEnding file start count)
            else 0)))

theorem windowSpan_onSymbols {file old : List Char} {name : String} {start : ℕ}
    (hwindow : FuzzyWindow file old name start) :
    (windowSpan (lines file) (lines old).length start).OnSymbols file ↔
      EndsOnSymbols file start (lines old).length := by
  obtain ⟨hcount, hinside⟩ := hwindow.inside
  have hstart : (windowSpan (lines file) (lines old).length start).start =
      size (beforeWindow file start) - crlfs ((splitLines file).take start) :=
    Nat.eq_sub_of_add_eq (span_start (by omega))
  have hlen := span_len hcount hinside
  have hlen' : (windowSpan (lines file) (lines old).length start).len =
      size (joinLines (windowLines file start (lines old).length)) -
        innerCrlfs file start (lines old).length -
          (if AtEnd file start (lines old).length then
            size (lastEnding file start (lines old).length) else 0) := by
    omega
  rw [Span.OnSymbols, hstart, hlen', EndsOnSymbols]

/-- Every single span ends on symbols when every unique window does. -/
theorem onSymbols_iff {file old : List Char} (hold : old ≠ []) :
    (∀ rung span, findMatches file old = some (rung, [span]) →
        span.OnSymbols file) ↔
      ∀ name start, FuzzyWindow file old name start →
        EndsOnSymbols file start (lines old).length := by
  constructor
  · intro hall name start hwindow
    rw [← windowSpan_onSymbols hwindow]
    exact hall _ _ hwindow.findMatches
  · intro hall rung span hmatches
    cases rung with
    | exact =>
        exact exactSpans_onSymbols hold (findMatches_exact hmatches).1.symm
    | fuzzy name =>
        obtain ⟨start, hwindow, rfl⟩ := fuzzyWindow_of_findMatches hmatches
        rw [windowSpan_onSymbols hwindow]
        exact hall name start hwindow

/-- A call never faults and fails atomically exactly when no unique window ends
inside a symbol and something is left of the text. -/
theorem execute_sound_iff (around : Surroundings) (history : EditHistory)
    (file : List Char) (args : Args) :
    (Faultless (execute around history file args) ∧
      ((execute around history file args).file ≠ file →
        ∃ rung spans, findMatches file args.oldString = some (rung, spans) ∧
          Applies args rung spans) ∧
      ∀ error,
        (execute around history file args).outcome = .ok (.error error) →
          (∀ source, error ≠ .io "write" args.path source) →
            (execute around history file args).file = file) ↔
      (Reaches around args →
        (∀ name start, FuzzyWindow file args.oldString name start →
            EndsOnSymbols file start (lines args.oldString).length) ∧
          ¬ (args.newString = [] ∧ Covered file args ∧
            (around.write []).2 = none)) := by
  by_cases hreaches : Reaches around args
  · have hexecute : execute around history file args =
        editFile around history file args := by
      rw [execute, if_neg hreaches.nonempty, if_neg hreaches.differ]
      simp only [hreaches.resolves, hreaches.reads]
    have hfile := editFile_file around history file args
    rw [hexecute, editFile_faultless_iff around history hreaches.nonempty,
      onSymbols_iff hreaches.nonempty]
    constructor
    · intro hsound _
      exact hsound.1
    · intro hcondition
      refine ⟨hcondition hreaches, ?_, ?_⟩
      · intro hchanged
        rcases hfile with hsame | ⟨happlies, _⟩
        · exact absurd hsame hchanged
        · exact happlies
      · intro error herror hwrite
        rcases hfile with hsame | ⟨_, hwrites⟩
        · exact hsame
        · obtain ⟨source, rfl⟩ := hwrites error herror
          exact absurd rfl (hwrite source)
  · have hrefused : (execute around history file args).file = file ∧
        ∃ error, (execute around history file args).outcome =
          .ok (.error error) := by
      rw [execute]
      split
      · exact ⟨rfl, _, rfl⟩
      · next hnonempty =>
          split
          · exact ⟨rfl, _, rfl⟩
          · next hdiffer =>
              split
              · exact ⟨rfl, _, rfl⟩
              · next hresolves =>
                  split
                  · exact ⟨rfl, _, rfl⟩
                  · next hreads =>
                      exact absurd ⟨hnonempty, hdiffer, hresolves, hreads⟩
                        hreaches
    obtain ⟨hfile, error, herror⟩ := hrefused
    refine iff_of_true ⟨?_, ?_, ?_⟩ fun hreach => absurd hreach hreaches
    · intro fault hfault
      rw [herror] at hfault
      cases hfault
    · intro hchanged
      exact absurd hfile hchanged
    · intro _ _ _
      exact hfile

/-- A window after three two-byte line ends, behind a symbol of three bytes, and
an edit that leaves nothing. -/
theorem execute_faults :
    (execute quietSurroundings ⟨[], []⟩
        ("a\r\nb\r\n".toList ++ [Char.ofNat 0x20AC] ++
          "\r\nfoo  bar\r\n".toList) joinWords).outcome = .error .slice ∧
      (execute quietSurroundings ⟨[], []⟩ "gone".toList
        ⟨"f", "gone".toList, [], false⟩).outcome = .error .underflow := by
  decide

end Kitaebot.FileEdit
