import Kitaebot.Agent.TurnLoop
import Kitaebot.Core.ByteText
import Kitaebot.Tools.Path

/-!
# The file edit tool

Find-and-replace with the match ladder of `file_edit.rs`.  Offsets count bytes,
so a slice can fail, and a subtraction on `usize` can underflow; both are
faults, apart from the errors the tool returns.  The hash of a payload, the
path guard's answer and what the file system does are parameters.
-/

namespace Kitaebot.FileEdit

open ByteText

/-! ## Errors and faults -/

/-- What every attempt of a loop produced. -/
inductive EditFutility where
  | failedIdentically
  | noChange
  deriving DecidableEq, Repr

inductive EditError where
  | invalidArguments (text : String)
  | guard (error : Tools.ToolError)
  | io (operation path source : String)
  | precondition (text : String)
  | editLoop (path : String) (attempts : ℕ) (outcome : EditFutility)
  deriving DecidableEq, Repr

/-- A slice out of range or inside a symbol, and a subtraction below zero. -/
inductive Fault where
  | slice
  | underflow
  deriving DecidableEq, Repr

structure Args where
  path : String
  oldString : List Char
  newString : List Char
  replaceAll : Bool
  deriving DecidableEq, Repr

/-! ## The history of futile attempts -/

/-- Attempts of one identical futile payload that trip the guard. -/
def futileLimit : ℕ := 3

/-- Futile payloads remembered per path. -/
def recentWindow : ℕ := 8

/-- Paths tracked before the oldest is evicted. -/
def maxPaths : ℕ := 32

structure EditHistory where
  byPath : List (String × List UInt64)
  order : List String
  deriving DecidableEq, Repr

namespace EditHistory

def tracks (history : EditHistory) (path : String) : Bool :=
  history.byPath.any (·.1 == path)

def ring (history : EditHistory) (path : String) : List UInt64 :=
  ((history.byPath.find? (·.1 == path)).map Prod.snd).getD []

/-- Make room for a new path, and list it. -/
def track (history : EditHistory) (path : String) : EditHistory :=
  if history.tracks path then history
  else
    let kept := if maxPaths ≤ history.byPath.length then
        match history.order with
        | oldest :: order => ⟨history.byPath.filter (·.1 != oldest), order⟩
        | [] => history
      else history
    { kept with order := kept.order ++ [path] }

/-- Record a futile attempt; the payload's occurrences in the path's window. -/
def recordFutile (history : EditHistory) (path : String) (fingerprint : UInt64) :
    EditHistory × ℕ :=
  let history := history.track path
  let old := history.ring path
  let ring := (if recentWindow ≤ old.length then old.tail else old) ++ [fingerprint]
  ({ history with
      byPath := history.byPath.filter (·.1 != path) ++ [(path, ring)] },
    ring.count fingerprint)

/-- A content-changing edit landed. -/
def clear (history : EditHistory) (path : String) : EditHistory :=
  if history.tracks path then
    ⟨history.byPath.filter (·.1 != path), history.order.filter (· != path)⟩
  else history

end EditHistory

/-! ## Normalizers -/

/-- Strip trailing whitespace only. -/
def stripTrailing (text : List Char) : List Char :=
  (text.reverse.dropWhile Text.isWhitespace).reverse

/-- The maximal runs without whitespace, with the run at hand before them. -/
def wordsFrom (current : List Char) : List Char → List (List Char)
  | [] => if current.isEmpty then [] else [current]
  | symbol :: text =>
      if Text.isWhitespace symbol then
        if current.isEmpty then wordsFrom [] text else current :: wordsFrom [] text
      else wordsFrom (current ++ [symbol]) text

def splitWhitespace (text : List Char) : List (List Char) := wordsFrom [] text

/-- Collapse whitespace runs to a single space, and trim. -/
def normalizeLine (text : List Char) : List Char :=
  [' '].intercalate (splitWhitespace text)

/-- Curly quotes, dashes and non-breaking spaces to ASCII. -/
def foldSymbol (symbol : Char) : Char :=
  if symbol = Char.ofNat 0x2018 ∨ symbol = Char.ofNat 0x2019 then Char.ofNat 0x27
  else if symbol = Char.ofNat 0x201C ∨ symbol = Char.ofNat 0x201D then
    Char.ofNat 0x22
  else if symbol = Char.ofNat 0x2013 ∨ symbol = Char.ofNat 0x2014 then '-'
  else if symbol = Char.ofNat 0xA0 then ' '
  else symbol

def foldUnicode (text : List Char) : List Char := text.map foldSymbol

def foldLine (text : List Char) : List Char := normalizeLine (foldUnicode text)

/-! ## The match ladder -/

/-- A matched byte range. -/
structure Span where
  start : ℕ
  len : ℕ
  deriving DecidableEq, Repr

inductive Rung where
  | exact
  | fuzzy (name : String)
  deriving DecidableEq, Repr

def Rung.name : Rung → String
  | .exact => "exact"
  | .fuzzy name => name

/-- Fuzzy rungs in escalation order. -/
def fuzzyRungs : List (String × (List Char → List Char)) :=
  [("trailing-whitespace-insensitive", stripTrailing),
    ("whitespace-flexible", normalizeLine),
    ("unicode-folded", foldLine)]

/-- The offsets of the matches from an offset on; the first symbols still belong
to a match. -/
def matchesFrom (old : List Char) : ℕ → ℕ → List Char → List ℕ
  | _, _, [] => []
  | offset, skip + 1, symbol :: text =>
      matchesFrom old (offset + symbol.utf8Size) skip text
  | offset, 0, symbol :: text =>
      if old.isPrefixOf (symbol :: text) then
        offset :: matchesFrom old (offset + symbol.utf8Size) (old.length - 1) text
      else matchesFrom old (offset + symbol.utf8Size) 0 text

/-- `str::match_indices` for a nonempty pattern. -/
def matchIndices (content old : List Char) : List ℕ := matchesFrom old 0 0 content

def exactSpans (content old : List Char) : List Span :=
  (matchIndices content old).map fun start => ⟨start, size old⟩

/-- Whether the lines from `start` on match the needle. -/
def windowMatches (normalize : List Char → List Char)
    (lines needle : List (List Char)) (start : ℕ) : Bool :=
  (((lines.drop start).take needle.length).zip needle).all fun pair =>
    normalize pair.1 == pair.2

/-- The lines a window that matches starts at. -/
def windowStarts (content old : List Char) (normalize : List Char → List Char) :
    List ℕ :=
  let needle := (lines old).map normalize
  if needle.isEmpty then []
  else (List.range ((lines content).length - (needle.length - 1))).filter
    (windowMatches normalize (lines content) needle)

/-- The bytes of a window of lines. -/
def windowSpan (lines : List (List Char)) (count start : ℕ) : Span where
  start := ((lines.take start).map fun line => size line + 1).sum
  len := ((((lines.drop start).take count).zipIdx start).map fun line =>
    size line.1 + if line.2 + 1 < lines.length then 1 else 0).sum

/-- Line-window matching under a normalizer. -/
def windowSpans (content old : List Char) (normalize : List Char → List Char) :
    List Span :=
  (windowStarts content old normalize).map
    (windowSpan (lines content) (lines old).length)

/-- The deciding rung and every span it produced. -/
def findMatches (content old : List Char) : Option (Rung × List Span) :=
  let spans := exactSpans content old
  if !spans.isEmpty then some (.exact, spans)
  else fuzzyRungs.findSome? fun rung =>
    let spans := windowSpans content old rung.2
    if spans.isEmpty then none else some (.fuzzy rung.1, spans)

/-! ## Splicing -/

/-- Replace some bytes at an offset. -/
def splice (content : List Char) (start len : ℕ) (replacement : List Char) :
    Except Fault (List Char) :=
  match replaceRange content start len replacement with
  | some result => .ok result
  | none => .error .slice

/-- Replace every span, the last one first. -/
def spliceAll (content : List Char) (spans : List Span)
    (replacement : List Char) : Except Fault (List Char) :=
  spans.reverse.foldlM
    (fun result span => splice result span.start span.len replacement) content

/-! ## Numbered lines -/

/-- Context lines on each side of an edited region. -/
def contextLines : ℕ := 3

/-- The newlines among the first bytes. -/
def newlinesBefore : ℕ → List Char → ℕ
  | _, [] => 0
  | bytes, symbol :: text =>
      if bytes = 0 then 0
      else (if symbol = '\n' then 1 else 0) +
        newlinesBefore (bytes - symbol.utf8Size) text

/-- 1-based line number of a byte position. -/
def lineOf (content : List Char) (position : ℕ) : Except Fault ℕ :=
  if position ≤ size content then .ok (newlinesBefore position content + 1)
  else .error .slice

/-- The numbered lines between two line numbers. -/
def numberedLines (content : List Char) (first last : ℕ) :
    Except Fault String :=
  let last := min last (lines content).length
  if first = 0 ∨ last < first then .error .underflow
  else .ok (String.join
    ((((lines content).zipIdx 1).drop (first - 1)).take (last - first + 1) |>.map
      fun line => toString line.2 ++ "\t" ++ String.ofList line.1 ++ "\n"))

/-- The region of some bytes, with context. -/
def echoRegion (content : List Char) (start len : ℕ) : Except Fault String := do
  let first ← lineOf content start
  let last ← if len = 0 then .ok first else lineOf content (start + len - 1)
  numberedLines content (max (first - contextLines) 1) (last + contextLines)

/-! ## Error texts -/

/-- Error text for a rung that matched more than once. -/
def ambiguousMessage (rung : Rung) (spans : List Span) (content : List Char)
    (path : String) : Except Fault String := do
  let lines ← spans.mapM fun span => lineOf content span.start
  let suggestion := match rung with
    | .exact =>
        "add surrounding context to make it unique, or set replace_all"
    | .fuzzy _ => "add surrounding context to make it unique"
  .ok (toString spans.length ++ " matches for old_string in " ++ path ++
    " at lines " ++ ", ".intercalate (lines.map toString) ++ " (" ++ rung.name ++
    " match); " ++ suggestion)

/-- Byte cap on the stale-read snapshot. -/
def snapshotMaxBytes : ℕ := 2048

/-- The distinct tokens of the needle that a line has. -/
def overlap (needle line : List Char) : ℕ :=
  let tokens := (normalizeLine line).splitOn ' '
  (((normalizeLine needle).splitOn ' ').filter (· ≠ [])).dedup.countP
    (· ∈ tokens)

/-- The entry with the greatest overlap, the earliest of several. -/
def bestEntry : List (ℕ × ℕ) → Option (ℕ × ℕ)
  | [] => none
  | entry :: entries =>
      match bestEntry entries with
      | none => some entry
      | some best => if entry.1 < best.1 then some best else some entry

/-- 1-based number of the line most similar to the needle. -/
def nearestLine (content old : List Char) : Option ℕ :=
  (bestEntry (((lines content).map (overlap old)).zipIdx)).map fun best =>
    if 0 < best.1 then best.2 + 1 else 1

/-- Numbered lines around a line; a header names a partial window. -/
def excerptAround (content : List Char) (center : ℕ) : Except Fault String := do
  let total := (lines content).length
  let first := max (center - contextLines) 1
  let last := min (center + contextLines) total
  let numbered ← numberedLines content first last
  .ok ((if 1 < first ∨ last < total then
      "[showing lines " ++ toString first ++ "-" ++ toString last ++ " of " ++
        toString total ++ "]\n"
    else "") ++ numbered)

/-- Error text for a no-match on every rung. -/
def staleReadMessage (content old : List Char) (path : String) :
    Except Fault String := do
  let excerpt ← match nearestLine content old with
    | some line => excerptAround content line
    | none => .ok ("(" ++ toString (size content) ++ " bytes, no lines)")
  .ok ("no match found for old_string in " ++ path ++
    "; the file may have changed since you read it. Nearest candidate:\n" ++
    Agent.truncateOutput excerpt snapshotMaxBytes)

/-! ## The tool -/

/-- What a call leaves behind. -/
structure Attempt where
  file : List Char
  history : EditHistory
  outcome : Except Fault (Except EditError String)
  deriving Repr

/-- What stands around a call. -/
structure Surroundings where
  /-- The hash of a payload. -/
  fingerprint : List Char × List Char × Bool → UInt64
  resolveWritable : String → Except Tools.ToolError Unit
  /-- The failure of reading the file, if it fails. -/
  readError : Option String
  /-- What a write leaves in the file, and its failure, if it fails. -/
  write : List Char → List Char × Option String

/-- The replacement to make: the result, where it is, and how many spans it
replaces.  Several spans are replaced only by an exact `replace_all`. -/
def edited (content : List Char) (args : Args) (rung : Rung)
    (spans : List Span) : Option (Except Fault (List Char × ℕ × ℕ)) :=
  match spans with
  | [only] => some do
      let result ← splice content only.start only.len args.newString
      .ok (result, only.start, 1)
  | many =>
      if rung = .exact ∧ args.replaceAll then some do
        let result ← spliceAll content many args.newString
        match many with
        | first :: _ => .ok (result, first.start, many.length)
        | [] => .error .slice
      else none

/-- Record a futile attempt, and report it unless the guard trips. -/
def futile (around : Surroundings) (history : EditHistory) (file : List Char)
    (args : Args) (outcome : EditFutility)
    (report : Except Fault (Except EditError String)) : Attempt :=
  let recorded := history.recordFutile args.path
    (around.fingerprint (args.oldString, args.newString, args.replaceAll))
  if futileLimit ≤ recorded.2 then
    ⟨file, recorded.1, .ok (.error (.editLoop args.path recorded.2 outcome))⟩
  else ⟨file, recorded.1, report⟩

/-- Write a changed text and echo the edited region. -/
def land (around : Surroundings) (history : EditHistory) (args : Args)
    (result : List Char) (editedAt replaced : ℕ) : Attempt :=
  let written := around.write result
  match written.2 with
  | some source => ⟨written.1, history.clear args.path,
      .ok (.error (.io "write" args.path source))⟩
  | none => ⟨written.1, history.clear args.path, do
      let echo ← echoRegion result editedAt (size args.newString)
      let count := if 1 < replaced then
          " (" ++ toString replaced ++ " replacements)"
        else ""
      .ok (.ok ("Edited " ++ args.path ++ count ++ ":\n" ++ echo))⟩

/-- The edit of a file that was read. -/
def editFile (around : Surroundings) (history : EditHistory)
    (file : List Char) (args : Args) : Attempt :=
  match findMatches file args.oldString with
  | none => futile around history file args .failedIdentically do
      let text ← staleReadMessage file args.oldString args.path
      .ok (.error (.precondition text))
  | some (rung, spans) =>
      match edited file args rung spans with
      | none => futile around history file args .failedIdentically do
          let text ← ambiguousMessage rung spans file args.path
          .ok (.error (.precondition text))
      | some (.error fault) => ⟨file, history, .error fault⟩
      | some (.ok (result, editedAt, replaced)) =>
          if result = file then futile around history file args .noChange do
            let echo ← echoRegion result editedAt (size args.newString)
            .ok (.ok ("Edited " ++ args.path ++ " (no change):\n" ++ echo))
          else land around history args result editedAt replaced

def execute (around : Surroundings) (history : EditHistory) (file : List Char)
    (args : Args) : Attempt :=
  if args.oldString = [] then
    ⟨file, history, .ok (.error (.invalidArguments
      "old_string must be non-empty"))⟩
  else if args.oldString = args.newString then
    ⟨file, history, .ok (.error (.invalidArguments
      "old_string and new_string are identical; the edit would be a no-op"))⟩
  else
    match around.resolveWritable args.path with
    | .error error => ⟨file, history, .ok (.error (.guard error))⟩
    | .ok () =>
        match around.readError with
        | some source =>
            ⟨file, history, .ok (.error (.io "read" args.path source))⟩
        | none => editFile around history file args

/-! ## What the echo needs -/

/-- A text has at least as many lines as newlines. -/
theorem newlinesBefore_le_lines (bytes : ℕ) (current text : List Char) :
    newlinesBefore bytes text ≤ (linesFrom current text).length := by
  induction text generalizing bytes current with
  | nil => exact Nat.zero_le _
  | cons symbol text ih =>
      rw [newlinesBefore, linesFrom]
      by_cases hbytes : bytes = 0
      · rw [if_pos hbytes]
        exact Nat.zero_le _
      · rw [if_neg hbytes]
        by_cases hsymbol : symbol = '\n'
        · have hrest := ih (bytes - symbol.utf8Size) []
          rw [if_pos hsymbol, if_pos hsymbol, List.length_cons]
          omega
        · have hrest := ih (bytes - symbol.utf8Size) (current ++ [symbol])
          rw [if_neg hsymbol, if_neg hsymbol]
          omega

theorem newlinesBefore_mono {first last : ℕ} (hle : first ≤ last)
    (text : List Char) : newlinesBefore first text ≤ newlinesBefore last text := by
  induction text generalizing first last with
  | nil => exact le_rfl
  | cons symbol text ih =>
      rw [newlinesBefore, newlinesBefore]
      by_cases hfirst : first = 0
      · rw [if_pos hfirst]
        exact Nat.zero_le _
      · have hrest : newlinesBefore (first - symbol.utf8Size) text ≤
            newlinesBefore (last - symbol.utf8Size) text :=
          ih (Nat.sub_le_sub_right hle _)
        have hlast : ¬ last = 0 := by omega
        rw [if_neg hfirst, if_neg hlast]
        omega

/-- Lines can be numbered from any line that exists, up to one not before it. -/
theorem numberedLines_ok {content : List Char} {first last : ℕ}
    (hpos : 0 < first) (hfirst : first ≤ (lines content).length)
    (hlast : first ≤ last) :
    ∃ text, numberedLines content first last = .ok text := by
  rw [numberedLines, if_neg (by omega)]
  exact ⟨_, rfl⟩

/-- The echo of a region within the text works, except on the empty text. -/
theorem echoRegion_cases {content : List Char} {start len : ℕ}
    (hrange : start + len ≤ size content) :
    (content = [] ∧ echoRegion content start len = .error .underflow) ∨
      (content ≠ [] ∧ ∃ text, echoRegion content start len = .ok text) := by
  have hfirst : lineOf content start =
      .ok (newlinesBefore start content + 1) := if_pos (by omega)
  have hecho : ∃ last, newlinesBefore start content ≤ last ∧
      echoRegion content start len = numberedLines content
        (max (newlinesBefore start content + 1 - contextLines) 1)
        (last + 1 + contextLines) := by
    by_cases hlen : len = 0
    · refine ⟨_, le_rfl, ?_⟩
      simp only [echoRegion, hfirst, hlen, bind, Except.bind, if_true]
    · have hlast : lineOf content (start + len - 1) =
          .ok (newlinesBefore (start + len - 1) content + 1) := if_pos (by omega)
      refine ⟨newlinesBefore (start + len - 1) content,
        newlinesBefore_mono (by omega) content, ?_⟩
      simp only [echoRegion, hfirst, hlast, hlen, bind, Except.bind, if_false]
  obtain ⟨last, hle, hecho⟩ := hecho
  have hlines : newlinesBefore start content ≤ (lines content).length := by
    rw [lines, List.length_map]
    exact newlinesBefore_le_lines start [] content
  rw [hecho]
  by_cases hcontent : content = []
  · left
    have hempty : (lines content).length = 0 := by
      rw [hcontent]
      rfl
    refine ⟨hcontent, ?_⟩
    rw [numberedLines, if_pos (by omega)]
  · right
    have hpos : 0 < (lines content).length := by
      rw [lines, List.length_map, List.length_pos_iff]
      exact fun hnil => hcontent (splitLines_eq_nil.mp hnil)
    refine ⟨hcontent, numberedLines_ok (by omega) ?_ ?_⟩
    · rw [contextLines]
      omega
    · rw [contextLines]
      omega

end Kitaebot.FileEdit
