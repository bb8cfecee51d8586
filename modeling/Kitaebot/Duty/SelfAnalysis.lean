import Mathlib.Data.List.Infix
import Mathlib.Data.List.Sort
import Kitaebot.Duty.Journal

/-!
# The self-analysis probe

The probe reads what its two sources hold past the cursor: the journal's lines
that look like notifications, and the error files, the rest of the cursor's file
and every later one.
-/

namespace Kitaebot.SelfAnalysis

open ByteText Journal

/-- Open bot-authored proposals allowed per repo before filing stops. -/
def proposalCap : ℕ := 3

/-- Byte cap per delta section injected into the dispatch prompt. -/
def sectionMaxBytes : ℕ := 32 * 1024

/-- A file of the error tee: its name, and its content where it can be read. -/
structure ErrorFile where
  name : String
  content : Except String (List Char)

/-- The two symptom sources at the time of a probe: the journal, if there is one,
and the files of the errors directory as they are listed. -/
structure Sources where
  journal : Except String (Option (List Char))
  errorsDir : Except String (Option (List ErrorFile))

/-- Read positions across the sources. -/
structure Cursor where
  journal : ℕ
  errorsFile : Option String
  errorsOffset : ℕ
  deriving DecidableEq, Repr

/-- New symptom material since the cursor. -/
structure Delta where
  notify : List Char
  errors : List Char
  deriving DecidableEq, Repr

/-- What a probe decided. -/
inductive Probe where
  | opened (delta : Delta) (next : Cursor)
  | closed
  | prime (cursor : Cursor)

/-- A journal entry line of the shape `[timestamp] [notify] …`. -/
def isNotifyEntry (line : List Char) : Bool :=
  line.head? == some '[' && decide ("] [notify] ".toList <:+: line)

/-- What of a file lies past the offset, if the file is that long. -/
def tail? (content : List Char) (offset : ℕ) : Option (List Char) :=
  if offset ≤ size content then some (lossyDrop offset content) else none

/-- `[notify]` entries appended past the offset, and the new offset. -/
def journalDelta (file : Except String (Option (List Char))) (offset : ℕ) :
    Except String (List Char × ℕ) :=
  match file with
  | .error error => .error error
  | .ok none => .ok ([], 0)
  | .ok (some content) =>
      match tail? content offset with
      | none => .ok ([], size content)
      | some tail =>
          .ok (List.intercalate ['\n'] ((lines tail).filter isNotifyEntry),
            size content)

/-- The tee's files, lexicographically sorted. -/
def errorFiles (dir : Except String (Option (List ErrorFile))) :
    Except String (List ErrorFile) :=
  match dir with
  | .error error => .error error
  | .ok none => .ok []
  | .ok (some files) => .ok (files.mergeSort fun first second => first.name ≤ second.name)

/-- Where reading starts in a file, unless the cursor is past it. -/
def startOffset (cursorFile : Option String) (cursorOffset : ℕ) (name : String) :
    Option ℕ :=
  match cursorFile with
  | none => some 0
  | some cursorFile =>
      if name < cursorFile then none
      else if name = cursorFile then some cursorOffset
      else some 0

/-- Read the files from the cursor on, after what was read before. -/
def readErrors (cursorFile : Option String) (cursorOffset : ℕ) :
    List ErrorFile → List Char × Option String × ℕ →
      Except String (List Char × Option String × ℕ)
  | [], read => .ok read
  | file :: files, (out, ending) =>
      match startOffset cursorFile cursorOffset file.name with
      | none => readErrors cursorFile cursorOffset files (out, ending)
      | some offset =>
          match file.content with
          | .error error => .error error
          | .ok content =>
              readErrors cursorFile cursorOffset files
                (out ++ (tail? content offset).getD [], some file.name, size content)

/-- Error-tee content past the cursor, and the new file and offset. -/
def errorsDelta (dir : Except String (Option (List ErrorFile)))
    (cursorFile : Option String) (cursorOffset : ℕ) :
    Except String (List Char × Option String × ℕ) := do
  let files ← errorFiles dir
  readErrors cursorFile cursorOffset files ([], cursorFile, cursorOffset)

/-- The cursor pointing at the current end of both sources. -/
def endOfSources (sources : Sources) : Except String Cursor := do
  let journal ← sources.journal
  let files ← errorFiles sources.errorsDir
  match files.getLast? with
  | none => .ok ⟨size (journal.getD []), none, 0⟩
  | some newest =>
      let content ← newest.content
      .ok ⟨size (journal.getD []), some newest.name, size content⟩

def estimateTokens (text : List Char) : ℕ := estimateTokensFromChars (size text)

/-- Probe the sources against the cursor and threshold. -/
def probe (sources : Sources) (cursor : Option Cursor) (minDeltaTokens : ℕ) :
    Except String Probe :=
  match cursor with
  | none => do
      let cursor ← endOfSources sources
      .ok (.prime cursor)
  | some cursor => do
      let (notify, journalEnd) ← journalDelta sources.journal cursor.journal
      let (errors, errorsFile, errorsOffset) ←
        errorsDelta sources.errorsDir cursor.errorsFile cursor.errorsOffset
      if estimateTokens notify + estimateTokens errors < minDeltaTokens then
        .ok .closed
      else .ok (.opened ⟨notify, errors⟩ ⟨journalEnd, errorsFile, errorsOffset⟩)

/-- A section of the prompt, capped and left out where it is empty. -/
def promptSection (title : String) (text : List Char) : String :=
  if text.isEmpty then ""
  else "\n" ++ title ++ "\n" ++
    String.ofList (truncateOutput text sectionMaxBytes) ++ "\n"

def promptIntro : String :=
  "Self-analysis: review your own operational record since the last run and " ++
  "decide whether it evidences a defect in kitaebot worth filing.\n"

def promptProposals (openProposals : List String) : String :=
  if openProposals.isEmpty then ""
  else "\nOpen issues on this repo — if your symptom matches one (yours or " ++
    "human-filed), do not file; cite it instead:\n" ++
      String.join (openProposals.map fun title => "- " ++ title ++ "\n")

/-- The one-proposal contract. -/
def promptContract (repo : String) : String :=
  "\nInvestigate the most significant symptom. Ground it in the code first: " ++
  "explore the checkout of " ++ repo ++ " before concluding. Then either file ONE " ++
  "issue on " ++ repo ++ " with github_issue_create — evidence quoted, your " ++
  "analysis, the suspected code location — or reply briefly that nothing is " ++
  "actionable. Label the issue: `bug` (broken, wasteful, or misleading behavior) " ++
  "or `enhancement` (new capability, hygiene), plus `priority:high` (burning " ++
  "money, turns, or data now) or `priority:low`, plus `needs-plan` when the fix " ++
  "needs a design agreed before code. Transient one-off failures that " ++
  "self-corrected are not actionable. Do not fix anything: proposals are triaged " ++
  "by a human, and an issue you file only becomes work when a human assigns it."

/-- The dispatch prompt: symptoms, open issues on the repo for dedup, and the
one-proposal contract. -/
def formatPrompt (repo : String) (delta : Delta) (openProposals : List String) :
    String :=
  promptIntro ++ promptSection "Problem reports from your journal:" delta.notify ++
    promptSection "Error events (WARN/ERROR):" delta.errors ++
    promptProposals openProposals ++ promptContract repo

/-- What lies past an earlier end of a text. -/
theorem tail?_append (before later : List Char) :
    tail? (before ++ later) (size before) = some later := by
  rw [tail?, if_pos (by rw [size_append]; omega), lossyDrop_size_append]

/-! ### The shape of a notification -/

theorem isNotifyEntry_iff {line : List Char} :
    isNotifyEntry line = true ↔
      line.head? = some '[' ∧ "] [notify] ".toList <:+: line := by
  rw [isNotifyEntry, Bool.and_eq_true, beq_iff_eq, decide_eq_true_iff]

/-- The header of an entry of the notifier looks like one. -/
theorem isNotifyEntry_of_header {entry : Journal.Entry} (htopic : entry.topic = Notifier.topic)
    {line : List Char} (hline : entry.header <+: line) :
    isNotifyEntry line = true := by
  obtain ⟨rest, rfl⟩ := hline
  rw [Journal.Entry.header, htopic]
  -- The stamp is left as it is: nothing here depends on it.
  generalize (Time.formatIso8601 entry.epoch).toList = stamp
  have hmiddle : "] [".toList ++ Notifier.topic ++ "] ".toList = "] [notify] ".toList := by
    decide
  rw [isNotifyEntry_iff, ← hmiddle]
  constructor
  · rfl
  · exact ⟨'[' :: stamp, rest, by simp only [List.append_assoc]⟩

/-- A carriage return after a line does not make it look like a notification. -/
theorem isNotifyEntry_of_append_return {line : List Char}
    (hentry : isNotifyEntry (line ++ ['\r']) = true) : isNotifyEntry line = true := by
  obtain ⟨hhead, hwithin⟩ := isNotifyEntry_iff.1 hentry
  have hline : "] [notify] ".toList <:+: line := by
    obtain hsuffix | hwithin := List.infix_concat_iff.1 hwithin
    · obtain ⟨before, hbefore⟩ := hsuffix
      have hlast := congrArg List.getLast? hbefore
      rw [List.getLast?_append, List.getLast?_append] at hlast
      have hspace : some ' ' = some '\r' := hlast
      exact absurd hspace (by decide)
    · exact hwithin
  rw [isNotifyEntry_iff]
  refine ⟨?_, hline⟩
  cases line with
  | nil => exact absurd hline (by decide)
  | cons symbol line => exact hhead

end Kitaebot.SelfAnalysis
