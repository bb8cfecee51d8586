import Mathlib.Data.List.Sort
import Mathlib.Data.List.Dedup
import Kitaebot.Agent.Usage
import Kitaebot.Core.Json
import Kitaebot.Tools.Mcp

/-!
# Strikes

What the turn loop counts: tool-call sets that repeat, tool calls that fail the
same way, rules that block, and the shapes of failure that earn a hint.  The
JSON parser is a parameter; errors of libraries are their rendered text.
-/

namespace Kitaebot.Agent

/-! ### Tool errors -/

inductive GithubError where
  | api (status : ℕ) (body : String)
  | deserialize (text : String)
  | network (text : String)
  | rateLimited (status : ℕ) (retryAfterSecs : Option ℕ) (body : String)
  deriving DecidableEq, Repr

inductive LinearError where
  | api (text : String)
  | deserialize (text : String)
  | network (text : String)
  deriving DecidableEq, Repr

inductive TelegramError where
  | api (errorCode : ℤ) (description : String)
  | deserialize (text : String)
  | network (text : String)
  deriving DecidableEq, Repr

inductive EditFutility where
  | failedIdentically
  | noChange
  deriving DecidableEq, Repr

structure TimeoutEvidence where
  outputTail : String
  pressure : String
  deriving DecidableEq, Repr

inductive ToolError where
  | blocked (operation guidance : String)
  | cancelled
  | commandFailed (command : String) (exitCode : ℤ) (output : String)
  | editLoop (path : String) (attempts : ℕ) (outcome : EditFutility)
  | ftsQuery (pattern source : String)
  | github (error : GithubError)
  | linear (error : LinearError)
  | http (url source : String)
  | httpStatus (url : String) (status : ℕ)
  | invalidArguments (text : String)
  | join (source : String)
  | io (operation path source : String)
  | mcp (tool : String) (source : Tools.Mcp.McpError)
  | notFound (name : String)
  | precondition (text : String)
  | sqlite (context source : String)
  | spawn (argv cwd source : String)
  | subAgent (source : String)
  | telegram (error : TelegramError)
  | webSearch (source : ProviderError)
  | timeout (command : String) (secs : ℕ) (evidence : TimeoutEvidence)

def GithubError.display : GithubError → String
  | api status body => "GitHub API error (" ++ toString status ++ "): " ++ body
  | deserialize text => "Deserialize error: " ++ text
  | network text => "Network error: " ++ text
  | rateLimited status retryAfterSecs body =>
      let after := match retryAfterSecs with
        | none => "None"
        | some secs => "Some(" ++ toString secs ++ ")"
      "GitHub rate limited (" ++ toString status ++ "), retry after " ++ after ++
        "s: " ++ body

def LinearError.display : LinearError → String
  | api text => "Linear API error: " ++ text
  | deserialize text => "Deserialize error: " ++ text
  | network text => "Network error: " ++ text

def TelegramError.display : TelegramError → String
  | api errorCode description =>
      "Telegram API error (" ++ toString errorCode ++ "): " ++ description
  | deserialize text => "Deserialize error: " ++ text
  | network text => "Network error: " ++ text

def EditFutility.display : EditFutility → String
  | failedIdentically => "failed identically"
  | noChange => "produced no change"

def TimeoutEvidence.display (evidence : TimeoutEvidence) : String :=
  (if evidence.pressure = "" then "" else "\ncgroup at kill: " ++ evidence.pressure) ++
    if evidence.outputTail = "" then ""
    else "\nlast output:\n" ++ evidence.outputTail

namespace ToolError

def display : ToolError → String
  | blocked operation guidance =>
      "Blocked: " ++ operation ++ " (" ++ guidance ++ ")"
  | cancelled => "cancelled"
  | commandFailed _ _ output => "Execution failed: " ++ output
  | editLoop path attempts outcome =>
      "file_edit on " ++ path ++ " " ++ outcome.display ++ " " ++
        toString attempts ++ " times running; re-read the file to re-anchor " ++
        "before editing it again"
  | ftsQuery pattern source =>
      "FTS5 failed to parse search pattern " ++ reprStr pattern ++ ": " ++ source ++
        ". Hyphens and colons are query syntax in fts mode; quote each literal " ++
        "term (\"security-lane\") or use mode=\"regex\"."
  | github error => error.display
  | linear error => error.display
  | http url source => "fetch " ++ url ++ ": " ++ source
  | httpStatus url status => "HTTP " ++ toString status ++ " from " ++ url
  | invalidArguments text => "Invalid arguments: " ++ text
  | join source => "blocking task failed: " ++ source
  | io operation path source =>
      "failed to " ++ operation ++ " " ++ path ++ ": " ++ source
  | mcp tool source => tool ++ ": " ++ source.display
  | notFound name => "Tool not found: " ++ name
  | precondition text => "precondition failed: " ++ text
  | sqlite context source => context ++ ": " ++ source
  | spawn argv cwd source =>
      "Failed to spawn \x60" ++ argv ++ "\x60 (cwd " ++ cwd ++ "): " ++ source
  | subAgent source => "sub-agent failed: " ++ source
  | telegram error => error.display
  | webSearch source => "search request failed: " ++ source.display
  | timeout command secs evidence =>
      "\x60" ++ command ++ "\x60 timed out after " ++ toString secs ++ "s" ++
        evidence.display

def isBlocked : ToolError → Bool
  | blocked _ _ => true
  | _ => false

end ToolError

def errorClass : ToolError → String
  | .blocked _ _ => "blocked"
  | .cancelled => "cancelled"
  | .commandFailed _ exitCode _ => "command_failed:" ++ toString exitCode
  | .editLoop _ _ _ => "edit_loop"
  | .ftsQuery _ _ => "fts_query"
  | .github (.api status _) => "github:api:" ++ toString status
  | .github (.deserialize _) => "github:deserialize"
  | .github (.network _) => "github:network"
  | .github (.rateLimited _ _ _) => "github:rate_limited"
  | .linear (.api _) => "linear:api"
  | .linear (.deserialize _) => "linear:deserialize"
  | .linear (.network _) => "linear:network"
  | .http _ _ => "http"
  | .httpStatus _ status => "http_status:" ++ toString status
  | .invalidArguments _ => "invalid_arguments"
  | .join _ => "join"
  | .io _ _ _ => "io"
  | .mcp _ _ => "mcp"
  | .notFound _ => "not_found"
  | .precondition _ => "precondition"
  | .sqlite context _ => "sqlite:" ++ context
  | .spawn _ _ _ => "spawn"
  | .subAgent _ => "sub_agent"
  | .telegram _ => "telegram"
  | .timeout _ _ _ => "timeout"
  | .webSearch _ => "web_search"

/-- What a tool came to. -/
abbrev ToolResult := Except ToolError String

section Parsing

variable (parse : String → Option Json.Value)

/-! ### Repeats -/

def repeatLimit : ℕ := 3

def repeatStrikeLimit : ℕ := 2

/-- The calls by name and parsed arguments; text that does not parse stands for
itself. -/
def fingerprint (calls : List ToolCall) : List (String × Json.Value) :=
  calls.map fun call => (call.function.name.value,
    (parse call.function.arguments).getD (.string call.function.arguments))

structure RepeatDetector where
  prev : Option (List (String × Json.Value))
  count : ℕ

namespace RepeatDetector

def new : RepeatDetector := ⟨none, 0⟩

/-- Record a set of tool calls. -/
def record (detector : RepeatDetector) (calls : List ToolCall) : RepeatDetector :=
  if detector.prev = some (fingerprint parse calls) then
    { detector with count := detector.count + 1 }
  else ⟨some (fingerprint parse calls), 1⟩

/-- The limit is reached. -/
def reached (detector : RepeatDetector) : Bool := repeatLimit ≤ detector.count

end RepeatDetector

/-! ### Identical failures -/

mutual

/-- Sort the keys of every object. -/
def canonicalizeValue : Json.Value → Json.Value
  | .object fields =>
      .object ((canonicalizeFields fields).insertionSort
        fun left right => ¬ right.1 < left.1)
  | .array items => .array (canonicalizeItems items)
  | value => value

def canonicalizeItems : List Json.Value → List Json.Value
  | [] => []
  | item :: items => canonicalizeValue item :: canonicalizeItems items

def canonicalizeFields : List (String × Json.Value) → List (String × Json.Value)
  | [] => []
  | (key, value) :: fields =>
      (key, canonicalizeValue value) :: canonicalizeFields fields

end

def canonicalArgs (args : String) : String :=
  match parse args with
  | some value => String.ofList (canonicalizeValue value).render
  | none => args

def strikeNotice : ℕ := 3

def strikeHalt : ℕ := 5

/-- Tool name, canonical arguments and error class. -/
abbrev StrikeKey := String × String × String

def strikeKey (call : ToolCall) (error : ToolError) : StrikeKey :=
  (call.function.name.value, canonicalArgs parse call.function.arguments,
    errorClass error)

/-- How often each tool call failed in the same way during a turn. -/
structure ToolStrikeTracker where
  strikes : StrikeKey → ℕ

namespace ToolStrikeTracker

def new : ToolStrikeTracker := ⟨fun _ => 0⟩

/-- Record a failed call; blocked calls strike elsewhere. -/
def record (tracker : ToolStrikeTracker) (call : ToolCall) (error : ToolError) :
    ToolStrikeTracker × Option ℕ :=
  if error.isBlocked then (tracker, none)
  else
    let key := strikeKey parse call error
    let count := tracker.strikes key + 1
    (⟨Function.update tracker.strikes key count⟩, some count)

def augmentNotice (content : String) (count : ℕ) : String :=
  if strikeNotice ≤ count then
    content ++ "\n\nThis exact call has failed " ++ toString count ++
      " times this turn. The failure is deterministic — stop retrying and adapt " ++
      "your approach or report the problem."
  else content

def timeoutNotice (command : String) (secs count : ℕ) : String :=
  let base := "Error: \x60" ++ command ++ "\x60 timed out after " ++ toString secs ++
    "s"
  if strikeNotice ≤ count then
    base ++ "\n\nThis command has timed out " ++ toString count ++
      " times this turn. Partial progress persists — a retry resumes where this " ++
      "stopped. But if the underlying store/target mtimes have not advanced, the " ++
      "failure is deterministic: stop retrying and report the problem."
  else
    base ++ "\n\nPartial progress persists — a retry resumes where this stopped."

/-- What the model reads of a failed call. -/
def failureText (error : ToolError) (count : Option ℕ) : String :=
  match error, count with
  | .timeout command secs _, some count => timeoutNotice command secs count
  | _, some count => augmentNotice ("Error: " ++ error.display) count
  | _, none => "Error: " ++ error.display

end ToolStrikeTracker

/-! ### Hints -/

def assertHint : String :=
  "Hint: a test assertion failed. Derive the expected value by hand from the " ++
    "inputs before changing code: the test's own expectation may be the bug."

def rerunHint : String :=
  "Hint: that test command already ran and no file_edit or file_write has " ++
    "happened since; the result will not change. Edit something first or ask a " ++
    "different question."

def staleEditHint : String :=
  "Hint: file_edit failed to match twice on that file; your view of it is " ++
    "stale. Re-read the region before retrying."

def testCommands : List String :=
  ["cargo test", "go test", "just check", "just rust-check", "just test",
    "npm test", "pnpm test", "pytest", "vitest"]

inductive HintKind where
  | assert
  | rerun
  | staleEdit
  deriving DecidableEq, Repr

structure HintTracker where
  fired : List HintKind
  lastTest : Option String
  editedSinceTest : Bool
  noMatch : String → ℕ

namespace HintTracker

def new : HintTracker := ⟨[], none, true, fun _ => 0⟩

/-- The text the first time, nothing after. -/
def fire (tracker : HintTracker) (kind : HintKind) (text : String) :
    HintTracker × Option String :=
  if kind ∈ tracker.fired then (tracker, none)
  else ({ tracker with fired := kind :: tracker.fired }, some text)

def assertionFailed (text : String) : Bool :=
  (Text.contains "assertion" text && Text.contains "failed" text) ||
    Text.contains "panicked at" text

/-- A string field of the arguments. -/
def argStr (args key : String) : Option String :=
  (parse args).bind fun value => (value.get key).bind Json.Value.asStr

/-- A look for a failed assertion in whatever the tool came to. -/
def observeText (tracker : HintTracker) (result : ToolResult) :
    HintTracker × Option String :=
  let text := match result with
    | .ok output => output
    | .error error => error.display
  if assertionFailed text then tracker.fire .assert assertHint else (tracker, none)

/-- One completed tool call. -/
def observe (tracker : HintTracker) (call : ToolCall) (result : ToolResult) :
    HintTracker × Option String :=
  let tool := call.function.name.value
  let args := call.function.arguments
  if tool = "file_edit" ∨ tool = "file_write" then
    match result with
    | .ok _ => { tracker with editedSinceTest := true }.observeText result
    | .error error =>
        if tool = "file_edit" ∧
            Text.contains "no match found for old_string" error.display then
          let path := (argStr parse args "path").getD ""
          let count := tracker.noMatch path + 1
          let tracker :=
            { tracker with noMatch := Function.update tracker.noMatch path count }
          if 2 ≤ count then tracker.fire .staleEdit staleEditHint
          else tracker.observeText result
        else tracker.observeText result
  else if tool = "exec" then
    match argStr parse args "command" with
    | none => tracker.observeText result
    | some command =>
        if testCommands.any fun test => Text.contains test command then
          let rerun := tracker.lastTest = some command ∧
            tracker.editedSinceTest = false
          let tracker :=
            { tracker with lastTest := some command, editedSinceTest := false }
          if rerun then tracker.fire .rerun rerunHint
          else tracker.observeText result
        else tracker.observeText result
  else tracker.observeText result

end HintTracker

end Parsing

/-! ### Blocked calls -/

def policyStrikeLimit : ℕ := 2

def policyRoundLimit : ℕ := 4

/-- What was blocked in a round: the reason with its guidance. -/
def blockedCalls (results : List ToolResult) : List (String × String) :=
  results.filterMap fun result => match result with
    | .error (.blocked operation guidance) =>
        some (operation ++ " (" ++ guidance ++ ")", guidance)
    | _ => none

/-- Each rule strikes once in a round. -/
def strikePolicies (strikes : String → ℕ) (halt : Bool) (round : List String) :
    (String → ℕ) × Bool :=
  round.dedup.foldl (fun (strikes, halt) guidance =>
    let count := strikes guidance + 1
    (Function.update strikes guidance count,
      halt || decide (policyStrikeLimit ≤ count))) (strikes, halt)

end Kitaebot.Agent
