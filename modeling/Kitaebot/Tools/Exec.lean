import Mathlib.Data.Rat.Defs
import Mathlib.Algebra.Order.Ring.Rat
import Kitaebot.Tools.DenyRules

/-!
# The command filter of the exec tool

Which commands are refused before a shell sees them: the raw-string rules, from
which static searches are exempt, and the structural rules on tokenized
commands.  The tokenizer `shlex` is a parameter.  Durations are exact rationals,
where the source computes with floating-point numbers.
-/

namespace Kitaebot.Tools

open Kitaebot.Text

/-! ### Quotes -/

inductive QuoteState where
  | double
  | none
  | single
  deriving DecidableEq, Repr

/-- How a symbol that is not escaped moves the quote state; the flag says that
it escapes the next one. -/
def QuoteState.next (state : QuoteState) (symbol : Char) : QuoteState × Bool :=
  match state with
  | .double =>
      if symbol = '"' then (.none, false)
      else if symbol = '\\' then (.double, true)
      else (.double, false)
  | .single => if symbol = '\'' then (.none, false) else (.single, false)
  | .none =>
      if symbol = '\\' then (.none, true)
      else if symbol = '"' then (.double, false)
      else if symbol = '\'' then (.single, false)
      else (.none, false)

def isSeparator (symbol : Char) : Bool :=
  symbol ∈ ['|', ';', '&', '\n']

/-- The loop of the splitter, after the segment in progress. -/
def splitFrom (state : QuoteState) (escaped : Bool) (current : List Char) :
    List Char → List (List Char)
  | [] => [current]
  | symbol :: rest =>
      if escaped then splitFrom state false (current ++ [symbol]) rest
      else if state = .none ∧ isSeparator symbol then
        current :: splitFrom .none false [] rest
      else
        let (state, escaped) := state.next symbol
        splitFrom state escaped (current ++ [symbol]) rest

/-- The segments between unquoted separators, with their quoting. -/
def splitUnquotedSeparators (cmd : String) : List String :=
  (splitFrom .none false [] cmd.toList).map String.ofList

def redirectionFrom (state : QuoteState) (escaped : Bool) : List Char → Bool
  | [] => false
  | symbol :: rest =>
      if escaped then redirectionFrom state false rest
      else if state = .none ∧ (symbol = '<' ∨ symbol = '>') then true
      else
        let (state, escaped) := state.next symbol
        redirectionFrom state escaped rest

def hasUnquotedRedirection (cmd : String) : Bool :=
  redirectionFrom .none false cmd.toList

/-! ### Commands -/

/-- `KEY=value`. -/
def isEnvAssignment (token : String) : Bool :=
  match splitOnce '=' token with
  | none => false
  | some (key, _) =>
      match key.toList with
      | [] => false
      | first :: rest =>
          (first.isAlpha || first == '_') &&
            rest.all fun symbol => symbol.isAlphanum || symbol == '_'

/-- `/usr/bin/git` is `git`. -/
def binaryName (token : String) : String :=
  (rsplit '/' token).headD token

/-- A word that may be a subcommand: no flag and no `=` in it. -/
def isPositional (token : String) : Bool :=
  !token.toList.head?.any (· == '-') && !token.toList.contains '='

section Filter

variable (shlex : String → Option (List String))

/-- A static search whose operands cannot execute. -/
def inertSearch (cmd : String) : Bool :=
  splitUnquotedSeparators cmd == [cmd] && !hasUnquotedRedirection cmd &&
    !cmd.toList.any (fun symbol => symbol == '$' || symbol == '\x60') &&
      (shlex cmd).any fun tokens =>
        (tokens.find? fun token => !isEnvAssignment token).any fun binary =>
          binaryName binary == "grep" || binaryName binary == "rg"

/-- A segment that runs ripgrep with a preprocessor. -/
def ripgrepPreprocessor (cmd : String) : Bool :=
  (splitUnquotedSeparators cmd).any fun segment =>
    (shlex segment).any fun tokens =>
      match tokens.dropWhile isEnvAssignment with
      | [] => false
      | binary :: args =>
          binaryName binary == "rg" && args.any fun token =>
            token == "--pre" || "--pre=".toList.isPrefixOf token.toList

/-- A supported test runner in command position. -/
def isTestCommand (segment : String) : Bool :=
  match shlex segment with
  | none => false
  | some tokens =>
      match tokens.dropWhile isEnvAssignment with
      | [] => false
      | binary :: args =>
          match args.find? isPositional with
          | none => false
          | some subcommand =>
              binaryName binary == "cargo" && subcommand == "test" ||
                binaryName binary == "just" &&
                  "test".toList.isPrefixOf subcommand.toList

/-- The scan for a test command before an unquoted pipe; `segment` is what was
read since the last separator.  Two pipes are control flow. -/
def pipedTestFrom (state : QuoteState) (escaped : Bool) (segment : List Char) :
    List Char → Bool
  | [] => false
  | symbol :: rest =>
      if escaped then pipedTestFrom state false (segment ++ [symbol]) rest
      else if state = .none ∧ symbol = '|' then
        match rest with
        | '|' :: rest => pipedTestFrom .none false [] rest
        | rest =>
            isTestCommand shlex (String.ofList segment) ||
              pipedTestFrom .none false [] rest
      else if state = .none ∧ isSeparator symbol then
        pipedTestFrom .none false [] rest
      else
        let (state, escaped) := state.next symbol
        pipedTestFrom state escaped (segment ++ [symbol]) rest

def pipedTestCommand (cmd : String) : Bool :=
  pipedTestFrom shlex .none false [] cmd.toList

/-! ### Sleeps -/

/-- A duration in seconds. -/
inductive Seconds where
  | finite (value : ℚ)
  | infinite
  deriving DecidableEq, Repr

namespace Seconds

def add : Seconds → Seconds → Seconds
  | finite first, finite second => finite (first + second)
  | _, _ => infinite

def scale (factor : ℚ) : Seconds → Seconds
  | finite value => finite (value * factor)
  | infinite => infinite

def exceeds (limit : ℕ) : Seconds → Bool
  | finite value => decide ((limit : ℚ) < value)
  | infinite => true

end Seconds

def sleepHeadroom : ℕ := 30

def natOfDigits (digits : List Char) : ℕ :=
  digits.foldl (fun total symbol => total * 10 + (symbol.toNat - '0'.toNat)) 0

/-- A sign, if there is one, and what follows it. -/
def splitSign : List Char → Bool × List Char
  | '-' :: rest => (true, rest)
  | '+' :: rest => (false, rest)
  | rest => (false, rest)

/-- Digits and a point, with at least one digit. -/
def parseMantissa (text : List Char) : Option ℚ :=
  let whole := text.takeWhile Char.isDigit
  match text.dropWhile Char.isDigit with
  | [] => if whole = [] then none else some (natOfDigits whole : ℚ)
  | '.' :: fraction =>
      if fraction.all Char.isDigit && !(whole ++ fraction).isEmpty then
        some ((natOfDigits (whole ++ fraction) : ℚ) / 10 ^ fraction.length)
      else none
  | _ => none

def parseExponent (text : List Char) : Option ℤ :=
  let (negative, digits) := splitSign text
  if digits.all Char.isDigit && !digits.isEmpty then
    some (if negative then -(natOfDigits digits : ℤ) else natOfDigits digits)
  else none

/-- A number without its sign. -/
def parseNumber (text : List Char) : Option ℚ :=
  match text.span fun symbol => symbol != 'e' && symbol != 'E' with
  | (mantissa, []) => parseMantissa mantissa
  | (mantissa, _ :: exponent) =>
      (parseMantissa mantissa).bind fun mantissa =>
        (parseExponent exponent).map fun exponent => mantissa * 10 ^ exponent

/-- A text that parses as a number that is not negative. -/
def parseSecs (text : String) : Option Seconds :=
  let (negative, unsigned) := splitSign text.toList
  let lower := unsigned.map Char.toLower
  if lower = "inf".toList ∨ lower = "infinity".toList then
    if negative then none else some .infinite
  else
    (parseNumber unsigned).bind fun value =>
      if negative ∧ value ≠ 0 then none else some (.finite value)

def sleepUnits : List (String × ℚ) :=
  [("d", 86400), ("h", 3600), ("m", 60), ("s", 1)]

/-- Seconds that one argument of `sleep` asks for. -/
def sleepArgSecs (arg : String) : Option Seconds :=
  let (number, scale) :=
    (sleepUnits.findSome? fun (unit, scale) =>
      (stripSuffix unit arg).map fun number => (number, scale)).getD (arg, 1)
  (parseSecs number).map (·.scale scale)

/-- Seconds that a `sleep` blocks for, unless an argument is not a literal. -/
def sleepSecs (args : List String) : Option Seconds :=
  ((args.filter fun arg => !arg.toList.head?.any (· == '-')).mapM
    sleepArgSecs).map fun secs => secs.foldl Seconds.add (.finite 0)

/-! ### The verdict -/

/-- What the caller is told. -/
inductive Guidance where
  | text (guidance : String)
  | sleepOverBudget (secs : Seconds) (budget : ℕ)
  deriving DecidableEq, Repr

structure CommandDeny where
  binary : String
  subcommand : Option String
  guidance : String

def commandDenyRules : List CommandDeny := [
  ⟨"git", some "clone", "use the git_clone tool"⟩,
  ⟨"git", some "push", "use the git_push tool"⟩,
  ⟨"git", some "fetch", "use the git_fetch tool"⟩,
  ⟨"git", some "commit", "use the git_commit tool"⟩,
  ⟨"gh", some "auth", "gh auth is not accessible"⟩,
  ⟨"nix", some "profile", profileMutation⟩,
  ⟨"at", none, scheduling⟩,
  ⟨"halt", none, hostPower⟩,
  ⟨"mount", none, mountGuidance⟩,
  ⟨"poweroff", none, hostPower⟩,
  ⟨"reboot", none, hostPower⟩,
  ⟨"shred", none, fileWipe⟩,
  ⟨"shutdown", none, hostPower⟩,
  ⟨"su", none, unprivileged⟩,
  ⟨"truncate", none, truncateGuidance⟩,
  ⟨"umount", none, mountGuidance⟩,
  ⟨"wipe", none, fileWipe⟩]

/-- The rule is about this binary and, if it names one, this subcommand. -/
def CommandDeny.hits (rule : CommandDeny) (binary : String)
    (subcommand : Option String) : Bool :=
  binary == rule.binary &&
    match rule.subcommand with
    | none => true
    | some denied => subcommand == some denied

/-- What is wrong with one segment's words. -/
def tokensBlocked (budget : ℕ) (tokens : List String) : Option Guidance :=
  match tokens.dropWhile isEnvAssignment with
  | [] => none
  | rawBinary :: args =>
      let binary := binaryName rawBinary
      let overslept := if binary == "sleep" then
          (sleepSecs args).filter (·.exceeds (budget - sleepHeadroom))
        else none
      match overslept with
      | some secs => some (.sleepOverBudget secs budget)
      | none =>
          (commandDenyRules.find? (·.hits binary (args.find? isPositional))).map
            fun rule => .text rule.guidance

def segmentBlocked (budget : ℕ) (segment : String) : Option Guidance :=
  match shlex segment with
  | none => some (.text "unparseable shell syntax")
  | some tokens => tokensBlocked budget tokens

/-- The structural rules. -/
def commandBlocked (cmd : String) (budget : ℕ) : Option Guidance :=
  if pipedTestCommand shlex cmd then some (.text pipedTest)
  else (splitUnquotedSeparators cmd).findSome? (segmentBlocked shlex budget)

/-- Why a command is refused, if it is; the budget is in seconds. -/
def blockedReason (isWord : Char → Bool) (cmd : String) (budget : ℕ) :
    Option Guidance :=
  if ripgrepPreprocessor shlex cmd then
    some (.text ripgrepPreprocessorGuidance)
  else if inertSearch shlex cmd then commandBlocked shlex cmd budget
  else
    match denySetMatch isWord (sanitize isWord cmd) with
    | some guidance => some (.text guidance)
    | none => commandBlocked shlex cmd budget

end Filter

end Kitaebot.Tools
