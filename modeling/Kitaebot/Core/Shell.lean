import Mathlib.Data.List.Basic
import Mathlib.Data.String.Basic

/-!
# Shell words

The quoting rules of the shell, read one symbol at a time: single and double
quotes, backslash escapes, line continuations and comments.  What counts as an
operator is a parameter, so that one reader gives both the token list of a
command line and its splitting into words.  Expansions are not performed.
-/

namespace Kitaebot.Shell

/-- A symbol of a word, and whether it was quoted or escaped. -/
structure Symbol where
  char : Char
  quoted : Bool
  deriving DecidableEq, Repr

abbrev Word := List Symbol

/-- The word without its quoting. -/
def value (word : Word) : String := String.ofList (word.map Symbol.char)

/-- A letter or underscore, then letters, digits and underscores. -/
def isName : List Char → Bool
  | [] => false
  | first :: rest =>
      (first.isAlpha || first == '_') &&
        rest.all fun symbol => symbol.isAlphanum || symbol == '_'

/-- `NAME=value`, with the name and the `=` unquoted. -/
def isAssignment (word : Word) : Bool :=
  match word.span fun symbol => symbol.char != '=' with
  | (_, []) => false
  | (name, equals :: _) =>
      isName (name.map Symbol.char) && name.all (fun symbol => !symbol.quoted) &&
        !equals.quoted

inductive Token where
  | word (word : Word)
  | operator (symbol : Char)
  | newline
  | comment
  deriving DecidableEq, Repr

inductive Mode where
  | plain
  | escaped
  | single
  | double
  | doubleEscaped
  | comment
  deriving DecidableEq, Repr

/-- The word in progress, if there is one, ends. -/
def close : Option Word → List Token
  | none => []
  | some word => [.word word]

def push (current : Option Word) (symbol : Char) (quoted : Bool) : Option Word :=
  some (current.getD [] ++ [⟨symbol, quoted⟩])

/-- The symbols a backslash escapes inside double quotes. -/
def escapable : List Char := ['$', '\x60', '"', '\\']

/-- One symbol: the tokens it completes, the next mode and the word in
progress. -/
def step (operator : Char → Bool) (mode : Mode) (current : Option Word)
    (symbol : Char) : List Token × Mode × Option Word :=
  match mode with
  | .plain =>
      if symbol = '\\' then ([], .escaped, current)
      else if symbol = '\'' then ([], .single, some (current.getD []))
      else if symbol = '"' then ([], .double, some (current.getD []))
      else if symbol = '#' ∧ current = none then ([.comment], .comment, none)
      else if symbol = '\n' then (close current ++ [.newline], .plain, none)
      else if symbol = ' ' ∨ symbol = '\t' then (close current, .plain, none)
      else if operator symbol then
        (close current ++ [.operator symbol], .plain, none)
      else ([], .plain, push current symbol false)
  | .escaped =>
      if symbol = '\n' then ([], .plain, current)
      else ([], .plain, push current symbol true)
  | .single =>
      if symbol = '\'' then ([], .plain, current)
      else ([], .single, push current symbol true)
  | .double =>
      if symbol = '"' then ([], .plain, current)
      else if symbol = '\\' then ([], .doubleEscaped, current)
      else ([], .double, push current symbol true)
  | .doubleEscaped =>
      if symbol = '\n' then ([], .double, current)
      else if symbol ∈ escapable then ([], .double, push current symbol true)
      else ([], .double, push (push current '\\' true) symbol true)
  | .comment =>
      if symbol = '\n' then ([.newline], .plain, none)
      else ([], .comment, none)

/-- The tokens of a text, unless it ends inside quotes or on a backslash. -/
def lexFrom (operator : Char → Bool) : Mode → Option Word → List Char →
    Option (List Token)
  | .plain, current, [] => some (close current)
  | .comment, _, [] => some []
  | _, _, [] => none
  | mode, current, symbol :: rest =>
      let (done, mode, current) := step operator mode current symbol
      (lexFrom operator mode current rest).map (done ++ ·)

/-- The control and redirection operators; each symbol is a token of its own. -/
def isOperator (symbol : Char) : Bool :=
  symbol ∈ ['|', '&', ';', '(', ')', '<', '>']

/-- A command line as the shell reads it. -/
def lex (text : String) : Option (List Token) :=
  lexFrom isOperator .plain none text.toList

def wordsOf (tokens : List Token) : List Word :=
  tokens.filterMap fun
    | .word word => some word
    | _ => none

/-- Word splitting by the quoting rules alone: operators are ordinary symbols
and line ends are blanks. -/
def posixSplit (text : String) : Option (List String) :=
  (lexFrom (fun _ => false) .plain none text.toList).map fun tokens =>
    (wordsOf tokens).map value

/-- The words between operators and line ends. -/
def groupsOf : List Token → List (List Word)
  | [] => [[]]
  | .word word :: tokens =>
      match groupsOf tokens with
      | [] => [[word]]
      | group :: groups => (word :: group) :: groups
  | .operator _ :: tokens => [] :: groupsOf tokens
  | .newline :: tokens => [] :: groupsOf tokens
  | .comment :: tokens => groupsOf tokens

@[simp]
theorem wordsOf_nil : wordsOf [] = [] := rfl

@[simp]
theorem wordsOf_append (first second : List Token) :
    wordsOf (first ++ second) = wordsOf first ++ wordsOf second :=
  List.filterMap_append

@[simp]
theorem wordsOf_word (word : Word) (tokens : List Token) :
    wordsOf (.word word :: tokens) = word :: wordsOf tokens := rfl

@[simp]
theorem wordsOf_operator (symbol : Char) (tokens : List Token) :
    wordsOf (.operator symbol :: tokens) = wordsOf tokens := rfl

@[simp]
theorem wordsOf_newline (tokens : List Token) :
    wordsOf (.newline :: tokens) = wordsOf tokens := rfl

@[simp]
theorem wordsOf_comment (tokens : List Token) :
    wordsOf (.comment :: tokens) = wordsOf tokens := rfl

@[simp]
theorem wordsOf_words (words : List Word) : wordsOf (words.map .word) = words := by
  induction words with
  | nil => rfl
  | cons word words ih => rw [List.map_cons, wordsOf_word, ih]

theorem groupsOf_ne_nil (tokens : List Token) : groupsOf tokens ≠ [] := by
  induction tokens with
  | nil => exact List.cons_ne_nil _ _
  | cons token tokens ih =>
      cases token with
      | word word =>
          rw [groupsOf]
          split <;> exact List.cons_ne_nil _ _
      | operator symbol => exact List.cons_ne_nil _ _
      | newline => exact List.cons_ne_nil _ _
      | comment => exact ih

end Kitaebot.Shell
