import Mathlib.Data.Nat.Log
import Kitaebot.Core.ByteText
import Kitaebot.Core.Text
import Kitaebot.Lcm.Externalize
import Kitaebot.Safety
import Kitaebot.Tools.Path

/-!
# Reading a file page by page

A read shows a window of numbered lines.  Where the window is too large to reach the
model whole, it is cut to the lines that fit, and says where to go on.
-/

namespace Kitaebot.FileRead

open ByteText (lines size)
open Lcm (IngestConfig)
open Tools (ToolError)

/-- Reject files larger than this to avoid flooding context. -/
def maxFileSize : ℕ := 10 * 1024 * 1024

/-- Number of lines returned when no limit is specified. -/
def defaultLimit : ℕ := 2000

/-- Tokens reserved for the wrapper and the trailer. -/
def clampReserveTokens : ℕ := 64

structure Args where
  path : String
  offset : Option UInt32
  limit : Option UInt32

def Args.start (args : Args) : ℕ := max (args.offset.getD 1).toNat 1

/-- How many lines a limit allows. -/
def mostOf (limit : Option UInt32) : ℕ := (limit.map UInt32.toNat).getD defaultLimit

def Args.most (args : Args) : ℕ := mostOf args.limit

/-- A line and its number. -/
abbrev Numbered := ℕ × List Char

def window (content : List Char) (start most : ℕ) : List Numbered :=
  (((lines content).zipIdx.drop (start - 1)).take most).map fun (line, index) =>
    (index + 1, line)

/-- Digits, tab, content and newline. -/
def lineCost (line : Numbered) : ℕ := Nat.log 10 line.1 + 1 + 1 + size line.2 + 1

/-- How many of the lines fit a budget of which some is used. -/
def fittingFrom (budget : ℕ) : ℕ → List Numbered → ℕ
  | _, [] => 0
  | used, line :: rest =>
      if used + lineCost line ≤ budget then
        fittingFrom budget (used + lineCost line) rest + 1
      else 0

/-- What a read shows. -/
structure Page where
  shown : List Numbered
  total : ℕ
  bytes : ℕ
  next : Option ℕ

def page (inlineTokens : ℕ) (content : List Char) (args : Args) : Page :=
  let window := window content args.start args.most
  let budget := (inlineTokens - clampReserveTokens) * 4
  let fitting := fittingFrom budget 0 window
  -- a first line alone over the budget cannot be windowed
  if fitting < window.length ∧ 0 < fitting then
    { shown := window.take fitting
      total := (lines content).length
      bytes := size content
      next := some (args.start + fitting) }
  else
    { shown := window
      total := (lines content).length
      bytes := size content
      next := none }

def decimal (value : ℕ) : List Char := Nat.toDigits 10 value

def writeLine (line : Numbered) : List Char := decimal line.1 ++ '\t' :: line.2 ++ ['\n']

/-- Where a page that was cut says to go on. -/
def onward (next : Option ℕ) : List Char :=
  next.elim [] fun line => "; continue with offset=".toList ++ decimal line

def Page.trailer (page : Page) : List Char :=
  '(' :: decimal page.shown.length ++ " lines shown, ".toList ++ decimal page.total ++
    " total, ".toList ++ decimal page.bytes ++ " bytes".toList ++ onward page.next ++ [')']

def Page.text (page : Page) : List Char :=
  page.shown.flatMap writeLine ++ '\n' :: page.trailer

/-- `FileRead::execute` on a file that is there and holds text. -/
def execute (inlineTokens : ℕ) (content : List Char) (args : Args) :
    Except ToolError String :=
  if maxFileSize < size content then
    .error (.blocked args.path ("file too large: " ++ toString (size content) ++
      " bytes (max " ++ toString maxFileSize ++ ")"))
  else .ok (String.ofList (page inlineTokens content args).text)

/-! ### Reading on -/

/-- Read on where a page says to, each time with a limit of its own. -/
def follow (inlineTokens : ℕ) (content : List Char) : Args → List (Option UInt32) → List Page
  | args, [] => [page inlineTokens content args]
  | args, limit :: limits =>
      let shown := page inlineTokens content args
      shown :: match shown.next with
        | some next =>
            follow inlineTokens content
              { args with offset := some (UInt32.ofNat next), limit := limit } limits
        | none => []

def numbered (content : List Char) : List Numbered :=
  (lines content).zipIdx.map fun (line, index) => (index + 1, line)

section Pages

variable {inlineTokens : ℕ} {content : List Char} {args : Args}

theorem window_eq (content : List Char) (start most : ℕ) :
    window content start most = ((numbered content).drop (start - 1)).take most := by
  rw [window, numbered, List.map_take, List.map_drop]

theorem fittingFrom_le (budget used : ℕ) (lines : List Numbered) :
    fittingFrom budget used lines ≤ lines.length := by
  induction lines generalizing used with
  | nil => exact Nat.le_refl _
  | cons line rest ih =>
      rw [fittingFrom, List.length_cons]
      split_ifs
      · exact Nat.succ_le_succ (ih _)
      · exact Nat.zero_le _

/-- The lines that fit cost no more than the budget. -/
theorem cost_fittingFrom {budget used : ℕ} (hused : used ≤ budget) (lines : List Numbered) :
    used + ((lines.take (fittingFrom budget used lines)).map lineCost).sum ≤ budget := by
  induction lines generalizing used with
  | nil => exact hused
  | cons line rest ih =>
      rw [fittingFrom]
      split_ifs with hfits
      · rw [List.take_succ_cons, List.map_cons, List.sum_cons, ← Nat.add_assoc]
        exact ih hfits
      · exact hused

/-- What a page is: a window whole, or the part of it that fits and where to go on. -/
theorem page_cases (inlineTokens : ℕ) (content : List Char) (args : Args) :
    ((page inlineTokens content args).next = none ∧
        (page inlineTokens content args).shown = window content args.start args.most) ∨
      ∃ fitting, 0 < fitting ∧ fitting < (window content args.start args.most).length ∧
        (page inlineTokens content args).next = some (args.start + fitting) ∧
        (page inlineTokens content args).shown =
          (window content args.start args.most).take fitting ∧
        (((window content args.start args.most).take fitting).map lineCost).sum ≤
          (inlineTokens - clampReserveTokens) * 4 := by
  rw [page]
  split_ifs with hclamped
  · refine .inr ⟨_, hclamped.2, hclamped.1, rfl, rfl, ?_⟩
    have hcost := cost_fittingFrom (Nat.zero_le ((inlineTokens - clampReserveTokens) * 4))
      (window content args.start args.most)
    rwa [Nat.zero_add] at hcost
  · exact .inl ⟨rfl, rfl⟩

theorem length_numbered (content : List Char) :
    (numbered content).length = (lines content).length := by
  rw [numbered, List.length_map, List.length_zipIdx]

/-- A page shows a window, which holds something where the window asked for does. -/
theorem page_shown (inlineTokens : ℕ) (content : List Char) (args : Args) :
    ∃ most, (page inlineTokens content args).shown = window content args.start most ∧
      (window content args.start args.most ≠ [] →
        (page inlineTokens content args).shown ≠ []) := by
  rcases page_cases inlineTokens content args with
    ⟨-, hshown⟩ | ⟨fitting, hpos, hfits, -, hshown, -⟩
  · refine ⟨args.most, hshown, fun hwindow => ?_⟩
    rwa [hshown]
  · refine ⟨min fitting args.most, ?_, fun _ hnil => ?_⟩
    · rw [hshown, window_eq, window_eq, List.take_take]
    · rw [hshown, List.take_eq_nil_iff] at hnil
      rcases hnil with hzero | hwindow
      · omega
      · rw [hwindow, List.length_nil] at hfits
        omega

theorem start_le (args : Args) : args.start ≤ 2 ^ 32 :=
  Nat.max_le.2 ⟨Nat.le_of_lt (UInt32.toNat_lt _), by decide⟩

theorem start_pos (args : Args) : 1 ≤ args.start := Nat.le_max_right _ _

/-- What a page says to go on with, as the next read takes it. -/
theorem start_next (args : Args) {next : ℕ} (hpos : 1 ≤ next) (hnext : next < 2 ^ 32)
    (limit : Option UInt32) :
    Args.start { args with offset := some (UInt32.ofNat next), limit := limit } = next := by
  rw [Args.start, Option.getD_some, UInt32.toNat_ofNat', Nat.mod_eq_of_lt hnext]
  exact Nat.max_eq_left hpos

/-- A page that says where to go on shows the lines up to there. -/
theorem page_next {inlineTokens : ℕ} {content : List Char} {args : Args} {next : ℕ}
    (hnext : (page inlineTokens content args).next = some next) :
    (page inlineTokens content args).shown ≠ [] ∧
      next = args.start + (page inlineTokens content args).shown.length ∧
      (page inlineTokens content args).shown =
        ((numbered content).drop (args.start - 1)).take (next - args.start) ∧
      next ≤ (lines content).length := by
  rcases page_cases inlineTokens content args with
    ⟨hnone, -⟩ | ⟨fitting, hpos, hfits, hsome, hshown, -⟩
  · rw [hnone] at hnext
    cases hnext
  · obtain rfl : args.start + fitting = next := Option.some.inj (hsome.symm.trans hnext)
    have hlength : (page inlineTokens content args).shown.length = fitting := by
      rw [hshown, List.length_take]
      omega
    rw [window_eq, List.length_take, List.length_drop, length_numbered] at hfits
    have hstart := start_pos args
    refine ⟨?_, by rw [hlength], ?_, by omega⟩
    · intro hnil
      rw [hnil, List.length_nil] at hlength
      omega
    · rw [hshown, window_eq, List.take_take, Nat.add_sub_cancel_left]
      congr 1
      omega

/-- Pages that show the lines from some place on, each once and in order: a page that
says where to go on shows something, the last one that does not ends its window, and
with a read for each line there is such a page. -/
structure Covers (content : List Char) (start : ℕ) (asked : List ℕ) (pages : List Page) :
    Prop where
  inOrder : pages.flatMap Page.shown <+: (numbered content).drop (start - 1)
  onward : ∀ page ∈ pages, page.next.isSome → page.shown ≠ []
  ending : ∀ before page, pages = before ++ [page] → page.next = none →
    page.shown = window content (start + (before.flatMap Page.shown).length)
      (asked.getD before.length 0)
  ended : (lines content).length < start + asked.length - 1 →
    ∃ before page, pages = before ++ [page] ∧ page.next = none

theorem covers_single {content : List Char} {start most : ℕ} {asked : List ℕ} {page : Page}
    (hinOrder : page.shown <+: (numbered content).drop (start - 1))
    (honward : page.next.isSome → page.shown ≠ [])
    (hending : page.next = none → page.shown = window content start most)
    (hended : (lines content).length < start + (most :: asked).length - 1 →
      page.next = none) :
    Covers content start (most :: asked) [page] where
  inOrder := by
    rw [List.flatMap_singleton]
    exact hinOrder
  onward := by
    intro other hother
    rw [List.mem_singleton.1 hother]
    exact honward
  ending := by
    intro before last hpages hnone
    cases before with
    | nil =>
        obtain rfl : page = last := List.head_eq_of_cons_eq hpages
        exact hending hnone
    | cons first before => simp at hpages
  ended hlarge := ⟨[], page, rfl, hended hlarge⟩

theorem Covers.cons {content : List Char} {start next most : ℕ} {asked : List ℕ}
    {first : Page} {pages : List Page} (hstart : 1 ≤ start) (hshown : first.shown ≠ [])
    (hsome : first.next.isSome) (hnext : next = start + first.shown.length)
    (htake : first.shown = ((numbered content).drop (start - 1)).take (next - start))
    (hpages : pages ≠ []) (hrest : Covers content next asked pages) :
    Covers content start (most :: asked) (first :: pages) where
  inOrder := by
    have hdrop : (numbered content).drop (next - 1) =
        ((numbered content).drop (start - 1)).drop (next - start) := by
      rw [List.drop_drop]
      congr 1
      omega
    have hinOrder := hrest.inOrder
    rw [hdrop] at hinOrder
    calc first.shown ++ pages.flatMap Page.shown
        <+: first.shown ++ ((numbered content).drop (start - 1)).drop (next - start) :=
          (List.prefix_append_right_inj _).2 hinOrder
      _ = (numbered content).drop (start - 1) := by
          rw [htake, List.take_append_drop]
  onward := by
    intro page hpage
    rcases List.mem_cons.1 hpage with rfl | hlater
    · exact fun _ => hshown
    · exact hrest.onward page hlater
  ending := by
    intro before page hsplit hnone
    cases before with
    | nil => exact absurd (List.cons.inj hsplit).2 hpages
    | cons head before =>
        obtain ⟨rfl, hlater⟩ := List.cons.inj hsplit
        rw [hrest.ending before page hlater hnone, hnext, List.flatMap_cons,
          List.length_append, Nat.add_assoc]
        rfl
  ended := by
    intro hlarge
    have hpos := List.length_pos_of_ne_nil hshown
    rw [List.length_cons] at hlarge
    obtain ⟨before, page, rfl, hnone⟩ := hrest.ended (by omega)
    exact ⟨first :: before, page, rfl, hnone⟩

theorem follow_ne_nil (inlineTokens : ℕ) (content : List Char) (args : Args)
    (limits : List (Option UInt32)) : follow inlineTokens content args limits ≠ [] := by
  cases limits with
  | nil => exact List.cons_ne_nil _ _
  | cons limit limits => exact List.cons_ne_nil _ _

end Pages

/-- Whatever the lines and the budget, reading on shows the file. -/
theorem follow_covers (inlineTokens : ℕ) {content : List Char}
    (hsize : size content ≤ maxFileSize) (args : Args) (limits : List (Option UInt32)) :
    Covers content args.start ((args.limit :: limits).map mostOf)
      (follow inlineTokens content args limits) := by
  have hlines : (lines content).length < 2 ^ 32 - 1 :=
    Nat.lt_of_le_of_lt (Nat.le_trans (ByteText.length_lines_le content) hsize) (by decide)
  have hcovered : ∀ args : Args, (page inlineTokens content args).next = none →
      ∀ asked, Covers content args.start (args.most :: asked)
        [page inlineTokens content args] := by
    intro args hnone asked
    have hshown : (page inlineTokens content args).shown =
        window content args.start args.most := by
      rcases page_cases inlineTokens content args with ⟨-, hshown⟩ | ⟨_, _, _, hsome, _⟩
      · exact hshown
      · rw [hnone] at hsome
        cases hsome
    refine covers_single ?_ ?_ (fun _ => hshown) (fun _ => hnone)
    · rw [hshown, window_eq]
      exact List.take_prefix _ _
    · intro hsome
      rw [hnone] at hsome
      cases hsome
  induction limits generalizing args with
  | nil =>
      rw [follow]
      cases hnext : (page inlineTokens content args).next with
      | none => exact hcovered args hnext []
      | some next =>
          obtain ⟨hshown, heq, htake, hbound⟩ := page_next hnext
          have hpos := List.length_pos_of_ne_nil hshown
          refine covers_single ?_ (fun _ => hshown) ?_ ?_
          · rw [htake]
            exact List.take_prefix _ _
          · intro hnone
            rw [hnext] at hnone
            cases hnone
          · intro hlarge
            simp only [List.map_nil, List.length_singleton] at hlarge
            omega
  | cons limit limits ih =>
      rw [follow]
      cases hnext : (page inlineTokens content args).next with
      | none => exact hcovered args hnext _
      | some next =>
          obtain ⟨hshown, heq, htake, hbound⟩ := page_next hnext
          have hpos := List.length_pos_of_ne_nil hshown
          have hstart := start_next args (by omega : 1 ≤ next) (by omega) limit
          have hrest := ih { args with offset := some (UInt32.ofNat next), limit := limit }
          rw [hstart] at hrest
          refine hrest.cons (start_pos args) hshown ?_ heq htake (follow_ne_nil _ _ _ _)
          rw [hnext, Option.isSome_some]

theorem follow_covers_twoLines :
    Covers "a\nb".toList 1 [2000, 1]
      (follow 65 "a\nb".toList ⟨"notes.txt", none, none⟩ [some 1]) :=
  follow_covers 65 (by decide) ⟨"notes.txt", none, none⟩ [some 1]

/-! ### A page that was cut reaches the model whole -/

theorem size_decimal_le {value digits : ℕ} (hpos : 0 < digits) (hvalue : value < 10 ^ digits) :
    size (decimal value) ≤ digits := by
  have hdigit : ∀ symbol ∈ decimal value, symbol.utf8Size = 1 := by
    intro symbol hsymbol
    have hdigit := Nat.isDigit_of_mem_toDigits (by decide) (by decide) hsymbol
    rw [Char.isDigit, Bool.and_eq_true, decide_eq_true_eq, decide_eq_true_eq] at hdigit
    have hhigh : symbol.val ≤ 57 := hdigit.2
    rw [Char.utf8Size, if_pos (UInt32.le_trans hhigh (by decide))]
  have hlength : (decimal value).length ≤ digits :=
    (Nat.length_toDigits_le_iff (by decide) hpos).2 hvalue
  rw [size, List.map_congr_left hdigit, List.map_const', List.sum_replicate_nat, Nat.mul_one]
  exact hlength

theorem size_writeLine_le (line : Numbered) : size (writeLine line) ≤ lineCost line := by
  have hnumber := size_decimal_le (Nat.succ_pos _)
    (Nat.lt_pow_succ_log_self (by decide : 1 < 10) line.1)
  have htab : ('\t').utf8Size = 1 := rfl
  have hnewline : ('\n').utf8Size = 1 := rfl
  simp only [writeLine, ByteText.size_append, ByteText.size_cons, ByteText.size_nil, htab,
    hnewline, lineCost]
  omega

theorem size_writeLines_le (shown : List Numbered) :
    size (shown.flatMap writeLine) ≤ (shown.map lineCost).sum := by
  induction shown with
  | nil => exact Nat.le_refl _
  | cons line shown ih =>
      have hline := size_writeLine_le line
      rw [List.flatMap_cons, ByteText.size_append, List.map_cons, List.sum_cons]
      omega

theorem size_onward_le {next : Option ℕ} (hnext : ∀ line, next = some line → line < 10 ^ 8) :
    size (onward next) ≤ 31 := by
  cases next with
  | none => simp only [onward, Option.elim_none, ByteText.size_nil, Nat.zero_le]
  | some line =>
      have hline := size_decimal_le (by decide) (hnext line rfl)
      have honward : size "; continue with offset=".toList = 23 := by decide
      simp only [onward, Option.elim_some, ByteText.size_append, honward]
      omega

/-- The numbers of a trailer are those of a file that is not too large. -/
theorem size_trailer_le {page : Page} (hshown : page.shown.length < 10 ^ 8)
    (htotal : page.total < 10 ^ 8) (hbytes : page.bytes < 10 ^ 8)
    (hnext : ∀ next, page.next = some next → next < 10 ^ 8) : size page.trailer ≤ 100 := by
  have hfirst := size_decimal_le (by decide) hshown
  have hsecond := size_decimal_le (by decide) htotal
  have hthird := size_decimal_le (by decide) hbytes
  have hopen : ('(').utf8Size = 1 := rfl
  have hclose : (')').utf8Size = 1 := rfl
  have hlines : size " lines shown, ".toList = 14 := by decide
  have hall : size " total, ".toList = 8 := by decide
  have hsize : size " bytes".toList = 6 := by decide
  have honward := size_onward_le hnext
  rw [Page.trailer]
  simp only [ByteText.size_append, ByteText.size_cons, ByteText.size_nil, hopen, hclose,
    hlines, hall, hsize, List.cons_append]
  omega

theorem size_wrap (content : List Char) :
    (Safety.wrap "file_read" content).utf8ByteSize = 46 + size content := by
  have hopen : ("<tool_output name=\"" ++ "file_read" ++ "\">\n").utf8ByteSize = 31 := by
    decide
  have hclose : "\n</tool_output>".utf8ByteSize = 15 := by decide
  unfold Safety.wrap
  rw [String.utf8ByteSize_append, String.utf8ByteSize_append, hopen, hclose,
    ByteText.utf8ByteSize_ofList]
  omega

theorem size_page_le {inlineTokens : ℕ} {content : List Char}
    (hsize : size content ≤ maxFileSize) {args : Args}
    (hclamped : (page inlineTokens content args).next.isSome) :
    size (page inlineTokens content args).text + 155 ≤ 4 * inlineTokens := by
  obtain ⟨next, hnext⟩ := Option.isSome_iff_exists.1 hclamped
  obtain ⟨-, heq, htake, hbound⟩ := page_next hnext
  have hlines := Nat.le_trans (ByteText.length_lines_le content) hsize
  have hmax : maxFileSize < 10 ^ 8 := by decide
  rcases page_cases inlineTokens content args with
    ⟨hnone, -⟩ | ⟨fitting, hpos, hfits, hsome, hshown, hcost⟩
  · rw [hnone] at hnext
    cases hnext
  · have hbytes : (page inlineTokens content args).bytes = size content ∧
        (page inlineTokens content args).total = (lines content).length := by
      rw [page]
      split_ifs
      · exact ⟨rfl, rfl⟩
      · exact ⟨rfl, rfl⟩
    have htrailer : size (page inlineTokens content args).trailer ≤ 100 := by
      apply size_trailer_le
      · omega
      · rw [hbytes.2]
        omega
      · rw [hbytes.1]
        omega
      · intro other hother
        obtain rfl : next = other := Option.some.inj (hnext.symm.trans hother)
        omega
    have hwritten := size_writeLines_le (page inlineTokens content args).shown
    rw [hshown] at hwritten
    have hnewline : ('\n').utf8Size = 1 := rfl
    -- something fits, so the budget is more than nothing
    have hsome : 0 < (((window content args.start args.most).take fitting).map lineCost).sum := by
      cases hwindow : window content args.start args.most with
      | nil =>
          rw [hwindow, List.length_nil] at hfits
          omega
      | cons line rest =>
          obtain ⟨fitting, rfl⟩ := Nat.exists_eq_succ_of_ne_zero (Nat.pos_iff_ne_zero.1 hpos)
          rw [List.take_succ_cons, List.map_cons, List.sum_cons, lineCost]
          omega
    rw [Page.text, ByteText.size_append, ByteText.size_cons, hnewline, hshown]
    rw [clampReserveTokens] at hcost
    omega

/-- A page that was cut to its budget is not replaced by a file reference, where nothing
in it is redacted. -/
theorem clamped_inline (sha256 : List UInt8 → List UInt8)
    (jsonPath : String → Option String) (text : Lcm.PayloadText) (cfg : IngestConfig)
    (db : Lcm.Db) (conversation : Lcm.ConversationId) (callId explored : String)
    {content : List Char} {args : Args} {output : String}
    (hread : execute cfg.toolOutputTokens content args = .ok output)
    (hclamped : (page cfg.toolOutputTokens content args).next.isSome)
    (hclean : Safety.matching output.toList = []) :
    Lcm.interceptLarge sha256 jsonPath text cfg db conversation
        (.tool callId (Safety.checkToolOutput "file_read" output).wrapped) explored =
      (.tool callId (Safety.checkToolOutput "file_read" output).wrapped, none) := by
  rw [execute] at hread
  split_ifs at hread with hlarge
  obtain rfl := Except.ok.inj hread
  rw [String.toList_ofList] at hclean
  have hpage := size_page_le (Nat.le_of_not_lt hlarge) hclamped
  have hwrapped : (Safety.checkToolOutput "file_read"
      (String.ofList (page cfg.toolOutputTokens content args).text)).wrapped =
        Safety.wrap "file_read" (page cfg.toolOutputTokens content args).text := by
    simp only [Safety.checkToolOutput, String.toList_ofList, hclean, List.foldl_nil]
  have hsmall : ¬ cfg.toolOutputTokens < Kitaebot.estimateTokens (Safety.wrap "file_read"
      (page cfg.toolOutputTokens content args).text) := by
    rw [Kitaebot.estimateTokens, Kitaebot.estimateTokensFromChars, size_wrap]
    omega
  rw [hwrapped, Lcm.interceptLarge, Lcm.oversized, if_neg hsmall]

def blankPage : String :=
  "1\t\n\n(1 lines shown, 2 total, 2 bytes; continue with offset=2)"

theorem clamped_inline_blankPage :
    Lcm.interceptLarge Lcm.zeroSha256 (fun _ => none) Lcm.plainText ⟨1000, 65⟩ Lcm.Db.empty 1
        (.tool "call_1" (Safety.checkToolOutput "file_read" blankPage).wrapped) "" =
      (.tool "call_1" (Safety.checkToolOutput "file_read" blankPage).wrapped, none) := by
  have hread : execute 65 "\n\n".toList ⟨"notes.txt", none, none⟩ = .ok blankPage := by
    decide
  exact clamped_inline Lcm.zeroSha256 (fun _ => none) Lcm.plainText ⟨1000, 65⟩ Lcm.Db.empty 1
    "call_1" "" hread (by decide) (by decide)

end Kitaebot.FileRead
