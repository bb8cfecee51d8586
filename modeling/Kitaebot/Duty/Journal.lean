import Kitaebot.Agent.TurnLoop
import Kitaebot.Core.ByteText
import Kitaebot.Time

/-!
# The journal and the notifier

The journal is one growing text: every entry is a bracketed stamp and topic, the
capped text as it is, and a blank line.  The notifier mirrors what it sends there,
the messages of a batch as one entry.
-/

namespace Kitaebot.Journal

open ByteText

/-- Cap on one journal entry. -/
def journalEntryMax : ℕ := 4000

def truncateOutput (text : List Char) (maxBytes : ℕ) : List Char :=
  (Agent.truncateOutput (String.ofList text) maxBytes).toList

/-- What is handed to the journal, and when. -/
structure Entry where
  epoch : ℕ
  topic : List Char
  text : List Char
  deriving DecidableEq, Repr

namespace Entry

/-- The text as it is stored. -/
def stored (entry : Entry) : List Char := truncateOutput entry.text journalEntryMax

/-- The stamp and the topic of an entry. -/
def header (entry : Entry) : List Char :=
  '[' :: (Time.formatIso8601 entry.epoch).toList ++ "] [".toList ++ entry.topic ++
    "] ".toList

/-- What is written for an entry. -/
def written (entry : Entry) : List Char :=
  entry.header ++ entry.stored ++ ['\n', '\n']

end Entry

/-- Append an entry to the journal, which the first one creates. -/
def journal (file : Option (List Char)) (entry : Entry) : Option (List Char) :=
  some (file.getD [] ++ entry.written)

/-- The journal after these entries. -/
def appended (entries : List Entry) : Option (List Char) :=
  entries.foldl journal none

/-- What stands in a journal of these entries. -/
def contents (entries : List Entry) : List Char := entries.flatMap Entry.written

theorem foldl_journal (file : List Char) (entries : List Entry) :
    entries.foldl journal (some file) = some (file ++ contents entries) := by
  induction entries generalizing file with
  | nil => simp [contents]
  | cons entry entries ih =>
      rw [List.foldl_cons, journal, Option.getD_some, ih]
      simp [contents]

theorem appended_cons (entry : Entry) (entries : List Entry) :
    appended (entry :: entries) = some (contents (entry :: entries)) := by
  rw [appended, List.foldl_cons, journal, Option.getD_none, foldl_journal]
  simp [contents]

theorem contents_append (before later : List Entry) :
    contents (before ++ later) = contents before ++ contents later :=
  List.flatMap_append

/-! ### Notifications -/

/-- Max notify calls per turn, both urgencies counted. -/
def maxPerTurn : ℕ := 5

/-- Byte cap for outgoing text. -/
def maxMessageBytes : ℕ := 4000

inductive Urgency where
  | low
  | high
  deriving DecidableEq, Repr

/-- Per-turn notification state. -/
structure NotifyState where
  attempts : ℕ
  batch : List (List Char)
  deriving DecidableEq, Repr

inductive NotifyAction where
  | buffered
  | rateLimited
  | sendNow (message : List Char)
  deriving DecidableEq, Repr

namespace NotifyState

def new : NotifyState := ⟨0, []⟩

def record (state : NotifyState) (message : List Char) (urgency : Urgency) :
    NotifyAction × NotifyState :=
  if maxPerTurn ≤ state.attempts then (.rateLimited, state)
  else
    match urgency with
    | .low => (.buffered, ⟨state.attempts + 1, state.batch ++ [message]⟩)
    | .high => (.sendNow message, ⟨state.attempts + 1, state.batch⟩)

/-- Take the batch, joined with blank lines. -/
def drain (state : NotifyState) : Option (List Char) × NotifyState :=
  match state.batch with
  | [] => (none, state)
  | _ => (some (List.intercalate ['\n', '\n'] state.batch), ⟨state.attempts, []⟩)

end NotifyState

/-- The notifier of a turn, and what it appended to the journal. -/
structure Notifier where
  state : NotifyState
  log : List Entry

namespace Notifier

def topic : List Char := "notify".toList

/-- Mirror a message before it is sent. -/
def send (notifier : Notifier) (epoch : ℕ) (text : List Char) : Notifier :=
  { notifier with
    log := notifier.log ++ [⟨epoch, topic, truncateOutput text maxMessageBytes⟩] }

def beginTurn (notifier : Notifier) : Notifier := { notifier with state := .new }

/-- A call of the notify tool. -/
def notify (notifier : Notifier) (epoch : ℕ) (message : List Char)
    (urgency : Urgency) : Notifier :=
  match notifier.state.record message urgency with
  | (.sendNow message, state) => { notifier with state }.send epoch message
  | (_, state) => { notifier with state }

/-- Deliver the batched messages as one. -/
def flush (notifier : Notifier) (epoch : ℕ) : Notifier :=
  match notifier.state.drain with
  | (none, state) => { notifier with state }
  | (some text, state) => { notifier with state }.send epoch text

/-- Harness-initiated immediate send. -/
def alert (notifier : Notifier) (epoch : ℕ) (text : List Char) : Notifier :=
  notifier.send epoch text

end Notifier

/-! ### The lines of an entry -/

theorem newline_not_mem_digits (width value : ℕ) :
    '\n' ∉ FixedWidth.digits width value := by
  intro hmem
  rw [FixedWidth.digits, List.leftpad, List.mem_append] at hmem
  obtain hpad | hdigit := hmem
  · exact absurd (List.eq_of_mem_replicate hpad) (by decide)
  · have hnewline := Nat.isDigit_of_mem_toDigits (by decide) (by decide) hdigit
    exact absurd hnewline (by decide)

private theorem newline_not_mem_stamp {year month day hours minutes seconds : ℕ}
    {text : List Char}
    (htext : text = FixedWidth.digits 4 year ++ ('-' ::
      (FixedWidth.digits 2 month ++ ('-' :: (FixedWidth.digits 2 day ++ ('T' ::
        (FixedWidth.digits 2 hours ++ (':' :: (FixedWidth.digits 2 minutes ++ (':' ::
          (FixedWidth.digits 2 seconds ++ ['Z']))))))))))) :
    '\n' ∉ text := by
  simp [htext, newline_not_mem_digits]

theorem newline_not_mem_formatIso8601 (epoch : ℕ) :
    '\n' ∉ (Time.formatIso8601 epoch).toList := by
  apply newline_not_mem_stamp
  rw [Time.formatIso8601, String.toList_ofList]

/-- The header of an entry whose topic is one line is the beginning of one. -/
theorem newline_not_mem_header {entry : Entry} (htopic : '\n' ∉ entry.topic) :
    '\n' ∉ entry.header := by
  intro hmem
  rw [Entry.header, List.mem_append, List.mem_append, List.mem_append,
    List.mem_cons] at hmem
  obtain (((hbracket | hstamp) | hmiddle) | htext) | hend := hmem
  · exact absurd hbracket (by decide)
  · exact newline_not_mem_formatIso8601 entry.epoch hstamp
  · exact absurd hmiddle (by decide)
  · exact htopic htext
  · exact absurd hend (by decide)

end Kitaebot.Journal
