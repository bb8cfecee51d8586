import Kitaebot.Duty.Scheduler

/-!
# The stored cursor as JSON

The compact text of a cursor whose file name needs no escapes, and its reading from
both ends.
-/

namespace Kitaebot.Scheduler
open SelfAnalysis

/-! ### Both ends of a text -/

/-- What follows a beginning. -/
def after (start text : List Char) : Option (List Char) :=
  if start.isPrefixOf text then some (text.drop start.length) else none

/-- What precedes an end. -/
def before (ending text : List Char) : Option (List Char) :=
  (after ending.reverse text.reverse).map List.reverse

theorem after_append (start text : List Char) :
    after start (start ++ text) = some text := by
  rw [after, if_pos (List.isPrefixOf_iff_prefix.2 (List.prefix_append ..)),
    List.drop_left]

theorem before_append (text ending : List Char) :
    before ending (text ++ ending) = some text := by
  rw [before, List.reverse_append, after_append, Option.map_some, List.reverse_reverse]

/-- Digits end where another symbol stands. -/
theorem span_digits {digits : List Char}
    (hdigits : ∀ symbol ∈ digits, symbol.isDigit = true) {next : Char} (hnext : next.isDigit = false) (rest : List Char) :
    (digits ++ next :: rest).span Char.isDigit = (digits, next :: rest) := by
  rw [List.span_eq_takeWhile_dropWhile, List.takeWhile_append_of_pos hdigits,
    List.dropWhile_append_of_pos hdigits, List.takeWhile_cons_of_neg (by simp [hnext]),
    List.dropWhile_cons_of_neg (by simp [hnext]), List.append_nil]

/-! ### The fields -/

def quoted : Option String → List Char
  | none => "null".toList
  | some name => '"' :: name.toList ++ ['"']

def unquoted (text : List Char) : Option (Option String) :=
  if text = "null".toList then some none
  else ((after ['"'] text).bind (before ['"'])).map fun name => some (String.ofList name)

theorem unquoted_quoted (file : Option String) : unquoted (quoted file) = some file := by
  cases file with
  | none => rfl
  | some name =>
      have hne : quoted (some name) ≠ "null".toList := by
        intro heq
        exact absurd (congrArg List.head? heq) (by simp [quoted])
      rw [unquoted, if_neg hne, quoted]
      have hopen : after ['"'] ('"' :: name.toList ++ ['"']) = some (name.toList ++ ['"']) :=
        after_append ['"'] _
      rw [hopen, Option.bind_some, before_append]
      simp

def journalField : List Char := "\x7b\"journal\":".toList

def fileField : List Char := ",\"errors_file\":".toList

def offsetField : List Char := ",\"errors_offset\":".toList

/-! ### The cursor -/

def encodeJson (cursor : Cursor) : List Char :=
  journalField ++ (Nat.toDigits 10 cursor.journal ++ (fileField ++
    (quoted cursor.errorsFile ++ offsetField ++ Nat.toDigits 10 cursor.errorsOffset ++
      ['\x7d'])))

def number (digits : List Char) : ℕ := Nat.ofDigitChars 10 digits 0

def decodeJson (text : List Char) : Option Cursor := do
  let rest ← after journalField text
  let (journal, rest) := rest.span Char.isDigit
  let rest ← after fileField rest
  let rest ← before ['\x7d'] rest
  let (offset, rest) := rest.reverse.span Char.isDigit
  let file ← before offsetField rest.reverse
  let errorsFile ← unquoted file
  some ⟨number journal, errorsFile, number offset.reverse⟩

theorem decode_encodeJson (cursor : Cursor) :
    decodeJson (encodeJson cursor) = some cursor := by
  have hdigits : ∀ value, ∀ symbol ∈ Nat.toDigits 10 value, symbol.isDigit = true :=
    fun value symbol hmem => Nat.isDigit_of_mem_toDigits (by decide) (by decide) hmem
  have hreverse : ∀ value, ∀ symbol ∈ (Nat.toDigits 10 value).reverse,
      symbol.isDigit = true :=
    fun value symbol hmem => hdigits value symbol (List.mem_reverse.1 hmem)
  have hjournal : (Nat.toDigits 10 cursor.journal ++ (fileField ++
      (quoted cursor.errorsFile ++ offsetField ++ Nat.toDigits 10 cursor.errorsOffset ++
        ['\x7d']))).span Char.isDigit = (Nat.toDigits 10 cursor.journal, fileField ++
      (quoted cursor.errorsFile ++ offsetField ++ Nat.toDigits 10 cursor.errorsOffset ++
        ['\x7d'])) := span_digits (hdigits _) rfl _
  have hoffset : (quoted cursor.errorsFile ++ offsetField ++
      Nat.toDigits 10 cursor.errorsOffset).reverse.span Char.isDigit =
        ((Nat.toDigits 10 cursor.errorsOffset).reverse,
          (quoted cursor.errorsFile ++ offsetField).reverse) := by
    rw [List.reverse_append, List.reverse_append]
    exact span_digits (hreverse _) rfl _
  rw [decodeJson, encodeJson, after_append]
  simp only [bind, Option.bind, hjournal, after_append, before_append, hoffset,
    List.reverse_reverse, unquoted_quoted, number]
  simp
/-- The cursor as JSON. -/
def jsonCodec : Codec where
  encode cursor := String.ofList (encodeJson cursor)
  decode text := decodeJson text.toList
  decode_encode cursor := by rw [String.toList_ofList, decode_encodeJson]

end Kitaebot.Scheduler
