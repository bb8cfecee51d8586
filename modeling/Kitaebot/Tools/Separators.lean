import Kitaebot.Core.ShellQuoting
import Kitaebot.Tools.CommandDeny

/-!
# Separators between commands

The splitter ends a segment at every separator between two commands and at no other
symbol, however the words of the commands are quoted.
-/

namespace Kitaebot.Tools

open Kitaebot.Shell

/-- What stands between two commands. -/
inductive Joint where
  | pipe
  | semicolon
  | background
  | andIf
  | orIf
  | newline
  deriving DecidableEq, Repr

namespace Joint

def text : Joint → List Char
  | pipe => ['|']
  | semicolon => [';']
  | background => ['&']
  | andIf => ['&', '&']
  | orIf => ['|', '|']
  | newline => ['\n']

/-- The empty segment inside a separator of two symbols. -/
def between : Joint → List (List Char)
  | andIf | orIf => [[]]
  | _ => []

end Joint

/-- A line of commands as it is written. -/
structure CommandLine where
  first : RenderedCommand
  rest : List (Joint × RenderedCommand)

namespace CommandLine

def text (line : CommandLine) : List Char :=
  line.first.text ++ line.rest.flatMap fun next => next.1.text ++ next.2.text

def commands (line : CommandLine) : List RenderedCommand :=
  line.first :: line.rest.map Prod.snd

/-- The commands, with an empty segment inside every separator of two symbols. -/
def segments (line : CommandLine) : List (List Char) :=
  line.first.text :: line.rest.flatMap fun next => next.1.between ++ [next.2.text]

end CommandLine

/-! ### What the splitter passes over -/

/-- A text that splits nothing and leaves the scanner outside of quotes. -/
def Seamless (text : List Char) : Prop :=
  ∀ segment rest, splitFrom .none false segment (text ++ rest) =
    splitFrom .none false (segment ++ text) rest

theorem seamless_nil : Seamless [] := by
  intro segment rest
  rw [List.nil_append, List.append_nil]

theorem Seamless.append {first second : List Char} (hfirst : Seamless first)
    (hsecond : Seamless second) : Seamless (first ++ second) := by
  intro segment rest
  rw [List.append_assoc, hfirst, hsecond, List.append_assoc]

theorem Seamless.flatMap {Item : Type} {items : List Item} {text : Item → List Char}
    (hall : ∀ item ∈ items, Seamless (text item)) : Seamless (items.flatMap text) := by
  induction items with
  | nil => exact seamless_nil
  | cons item items ih =>
      rw [List.forall_mem_cons] at hall
      rw [List.flatMap_cons]
      exact hall.1.append (ih hall.2)

/-- A symbol that is no separator moves the quote state. -/
theorem splitFrom_next {state : QuoteState} {symbol : Char}
    (hkeep : ¬ (state = .none ∧ isSeparator symbol = true)) (segment rest : List Char) :
    splitFrom state false segment (symbol :: rest) =
      splitFrom (state.next symbol).1 (state.next symbol).2 (segment ++ [symbol]) rest := by
  rw [splitFrom, if_neg Bool.false_ne_true, if_neg hkeep]

theorem splitFrom_escaped (state : QuoteState) (symbol : Char) (segment rest : List Char) :
    splitFrom state true segment (symbol :: rest) =
      splitFrom state false (segment ++ [symbol]) rest := by
  rw [splitFrom, if_pos rfl]

theorem not_separator {symbol : Char} (hbare : symbol ∉ special) :
    isSeparator symbol = false := by
  simp only [special, List.mem_cons, List.not_mem_nil, or_false, not_or] at hbare
  simp [isSeparator, hbare]

theorem quoted_keeps {state : QuoteState} (hquoted : state ≠ .none) (symbol : Char) :
    ¬ (state = .none ∧ isSeparator symbol = true) :=
  fun hsplits => hquoted hsplits.1

theorem splitFrom_single {symbols : List Char} (hquote : '\'' ∉ symbols)
    (segment rest : List Char) :
    splitFrom .single false segment (symbols ++ '\'' :: rest) =
      splitFrom .none false (segment ++ (symbols ++ ['\''])) rest := by
  induction symbols generalizing segment with
  | nil => exact splitFrom_next (quoted_keeps single_ne_none _) segment rest
  | cons symbol symbols ih =>
      rw [List.mem_cons, not_or] at hquote
      have hnext : QuoteState.single.next symbol = (.single, false) :=
        if_neg (Ne.symm hquote.1)
      rw [List.cons_append, splitFrom_next (quoted_keeps single_ne_none _), hnext,
        ih hquote.2, List.append_assoc]
      rfl

theorem splitFrom_doubleItem (item : DoubleItem) (segment rest : List Char) :
    splitFrom .double false segment (item.text ++ rest) =
      splitFrom .double false (segment ++ item.text) rest := by
  have hescape : ∀ symbol, splitFrom .double false segment ('\\' :: symbol :: rest) =
      splitFrom .double false (segment ++ ['\\', symbol]) rest := by
    intro symbol
    rw [splitFrom_next (quoted_keeps double_ne_none _)]
    change splitFrom .double true (segment ++ ['\\']) (symbol :: rest) = _
    rw [splitFrom_escaped, List.append_assoc]
    rfl
  cases item with
  | plain symbol hplain =>
      have hnext : QuoteState.double.next symbol = (.double, false) := by
        simp [QuoteState.next, hplain.1, hplain.2]
      rw [DoubleItem.text, List.singleton_append,
        splitFrom_next (quoted_keeps double_ne_none _), hnext]
  | escaped symbol hescapable => exact hescape symbol
  | kept symbol hkept => exact hescape symbol

theorem splitFrom_double (items : List DoubleItem) (segment rest : List Char) :
    splitFrom .double false segment (items.flatMap DoubleItem.text ++ '"' :: rest) =
      splitFrom .none false (segment ++ (items.flatMap DoubleItem.text ++ ['"'])) rest := by
  induction items generalizing segment with
  | nil => exact splitFrom_next (quoted_keeps double_ne_none _) segment rest
  | cons item items ih =>
      rw [List.flatMap_cons, List.append_assoc, splitFrom_doubleItem, ih, List.append_assoc,
        List.append_assoc]

/-- No way to write a piece of a word splits it. -/
theorem seamless_piece (piece : Piece) : Seamless piece.text := by
  intro segment rest
  cases piece with
  | bare symbol hbare =>
      have hkeep : ¬ (QuoteState.none = .none ∧ isSeparator symbol = true) := by
        rw [not_separator hbare]
        simp
      have hnext : QuoteState.none.next symbol = (.none, false) := by
        simp only [special, List.mem_cons, List.not_mem_nil, or_false, not_or] at hbare
        simp [QuoteState.next, hbare]
      rw [Piece.text, List.singleton_append, splitFrom_next hkeep, hnext]
  | escaped symbol hline =>
      have hslash : ¬ (QuoteState.none = .none ∧ isSeparator '\\' = true) := by decide
      rw [Piece.text, List.cons_append, splitFrom_next hslash]
      change splitFrom .none true (segment ++ ['\\']) (symbol :: rest) = _
      rw [splitFrom_escaped, List.append_assoc]
      rfl
  | single symbols hquote =>
      have hopen : ¬ (QuoteState.none = .none ∧ isSeparator '\'' = true) := by decide
      rw [Piece.text, List.cons_append, List.cons_append, splitFrom_next hopen,
        List.append_assoc]
      change splitFrom .single false (segment ++ ['\'']) (symbols ++ '\'' :: rest) = _
      rw [splitFrom_single hquote, List.append_assoc]
      rfl
  | double items =>
      have hopen : ¬ (QuoteState.none = .none ∧ isSeparator '"' = true) := by decide
      rw [Piece.text, List.cons_append, List.cons_append, splitFrom_next hopen,
        List.append_assoc]
      change splitFrom .double false (segment ++ ['"'])
        (items.flatMap DoubleItem.text ++ '"' :: rest) = _
      rw [splitFrom_double, List.append_assoc]
      rfl

theorem seamless_gap (gap : Gap) : Seamless gap.blanks := by
  obtain ⟨blanks, hblank⟩ := gap
  induction blanks with
  | nil => exact seamless_nil
  | cons symbol blanks ih =>
      rw [List.forall_mem_cons] at hblank
      have hfirst : Seamless [symbol] := by
        intro segment rest
        rcases hblank.1 with rfl | rfl
        · exact splitFrom_next (by decide) segment rest
        · exact splitFrom_next (by decide) segment rest
      exact hfirst.append (ih hblank.2)

theorem seamless_rendered (rendered : Rendered) : Seamless rendered.text :=
  .flatMap fun piece _ => seamless_piece piece

theorem seamless_command (command : RenderedCommand) : Seamless command.text := by
  have htail : ∀ rest, Seamless (RenderedCommand.tail rest) := by
    intro rest
    induction rest with
    | nil => exact seamless_nil
    | cons next rest ih =>
        exact (seamless_gap next.1).append ((seamless_rendered next.2).append ih)
  exact (seamless_gap command.before).append ((seamless_rendered command.first).append
    ((htail command.rest).append (seamless_gap command.after)))

/-! ### Lines -/

/-- Every symbol of a separator ends a segment. -/
theorem splitFrom_joint (joint : Joint) (segment rest : List Char) :
    splitFrom .none false segment (joint.text ++ rest) =
      segment :: (joint.between ++ splitFrom .none false [] rest) := by
  cases joint <;> rfl

/-- The splitter returns the commands of a line as they are written, with empty segments
inside the separators of two symbols, and each of them tokenizes to its own words. -/
theorem separators_exact (shlex : String → Option (List String)) (hposix : Posix shlex)
    (line : CommandLine) :
    splitUnquotedSeparators (.ofList line.text) = line.segments.map .ofList ∧
      ∀ command ∈ line.commands,
        shlex (.ofList command.text) = some command.words := by
  refine ⟨?_, fun command _ => hposix _ _ (posixSplit_rendered command)⟩
  obtain ⟨first, rest⟩ := line
  rw [splitUnquotedSeparators, String.toList_ofList, CommandLine.text,
    seamless_command first, List.nil_append]
  congr 1
  simp only [CommandLine.segments]
  generalize first.text = segment
  induction rest generalizing segment with
  | nil => rfl
  | cons next rest ih =>
      have hcommand := seamless_command next.2 []
      rw [List.flatMap_cons, List.append_assoc, splitFrom_joint, hcommand, List.nil_append,
        ih, List.flatMap_cons, List.append_assoc]
      rfl

theorem quote_not_mem_bar : '\'' ∉ ['|'] := by decide

theorem bar_ne_line : '|' ≠ '\n' := by decide

/-- Two commands that are quoted bars, with two bars between them. -/
def quotedBar : CommandLine where
  first := {
    before := ⟨[], List.forall_mem_nil _⟩
    first := ⟨.single ['|'] quote_not_mem_bar, [], trivial⟩
    rest := []
    apart := List.forall_mem_nil _
    after := ⟨[], List.forall_mem_nil _⟩ }
  rest := [(.orIf, {
    before := ⟨[], List.forall_mem_nil _⟩
    first := ⟨.escaped '|' bar_ne_line, [], trivial⟩
    rest := []
    apart := List.forall_mem_nil _
    after := ⟨[], List.forall_mem_nil _⟩ })]

theorem separators_exact_quotedBar :
    Posix posixSplit ∧
    splitUnquotedSeparators (.ofList quotedBar.text) = quotedBar.segments.map .ofList ∧
      ∀ command ∈ quotedBar.commands,
        posixSplit (.ofList command.text) = some command.words :=
  ⟨fun _ _ hsplit => hsplit, separators_exact posixSplit (fun _ _ hsplit => hsplit) quotedBar⟩

example : String.ofList quotedBar.text = "'|'||\\|" ∧
    quotedBar.segments.map String.ofList = ["'|'", "", "\\|"] := by decide

end Kitaebot.Tools
