import Kitaebot.Agent.Strikes
import Kitaebot.Tools.FileEdit

/-!
# Session statistics

Which tools and exec commands take up the most output, and which calls fail.
Messages do not say which tool a result came from, so calls wait in a queue and
every result is counted for the call at its front.  A hash map is the function it
stores; the rows of a report come out of it in no order of their own.  The JSON
parser is a parameter.
-/

namespace Kitaebot.Context.Stats

open Kitaebot.Text

/-- The longest display of a blocked command. -/
def maxCmdDisplay : ℕ := 60

structure ToolStats where
  calls : ℕ
  totalOutputBytes : ℕ
  deriving DecidableEq, Repr

/-- How a tool call failed, by what its content starts with. -/
inductive FailureKind where
  | blocked
  | commandFailed
  | editLoop
  | invalidArguments
  | notFound
  | precondition
  | other
  | spawn
  | timeout
  | safetyBlock
  | repeatBlock
  deriving DecidableEq, Repr

structure ToolErrorKey where
  tool : String
  kind : FailureKind
  deriving DecidableEq, Repr

/-- What a call is counted under. -/
structure CallInfo where
  toolName : String
  execCmd : Option String
  execFullCmd : Option String
  deriving DecidableEq, Repr

structure Counts where
  byTool : String → Option ToolStats
  byExecCmd : String → Option ToolStats
  blockedCmds : String → Option ℕ
  toolErrors : ToolErrorKey → Option ℕ

structure Report where
  sessionCount : ℕ
  counts : Counts

/-- The queue of calls, and what was counted so far. -/
structure Acc where
  pending : List CallInfo
  counts : Counts

/-! ### Commands -/

section Commands

variable (parse : String → Option Json.Value)

def truncateStr (text : String) (max : ℕ) : String :=
  if text.utf8ByteSize ≤ max then text else leading text (max - 3) ++ "..."

def commandField (argumentsJson : String) : Option String :=
  (parse argumentsJson).bind fun value =>
    (value.get "command").bind Json.Value.asStr

/-- The first two words of the command. -/
def extractExecCommand (argumentsJson : String) : String :=
  match commandField parse argumentsJson with
  | none => "<unknown>"
  | some cmd =>
      let key := (FileEdit.splitWhitespace cmd.toList).take 2
      if key.isEmpty then "<empty>"
      else " ".intercalate (key.map String.ofList)

def extractExecFullCommand (argumentsJson : String) : String :=
  truncateStr ((commandField parse argumentsJson).getD "<unknown>") maxCmdDisplay

def callInfo (call : ToolCall) : CallInfo :=
  let isExec := call.function.name.value == "exec"
  { toolName := call.function.name.value
    execCmd :=
      if isExec then some (extractExecCommand parse call.function.arguments)
      else none
    execFullCmd :=
      if isExec then some (extractExecFullCommand parse call.function.arguments)
      else none }

end Commands

/-! ### Failures -/

/-- The failure a tool message records, if it records one. -/
def classifyFailure (content : String) : Option FailureKind :=
  if opens "Error: Blocked: " content then some .blocked
  else if opens "Error: Execution failed: " content then some .commandFailed
  else if opens "Error: file_edit on " content then some .editLoop
  else if opens "Error: precondition failed: " content then some .precondition
  else if opens "Error: Invalid arguments: " content then some .invalidArguments
  else if opens "Error: Tool not found: " content then some .notFound
  else if opens "Error: Failed to spawn " content then some .spawn
  else if opens "Error: " content && contains " timed out after " content then
    some .timeout
  else if opens "Tool output blocked: " content then some .safetyBlock
  else if opens "ERROR: You have called this tool" content then some .repeatBlock
  else if opens "Error: " content then some .other
  else none

/-! ### Counting -/

def accumulate (map : String → Option ToolStats) (key : String) (bytes : ℕ) :
    String → Option ToolStats :=
  let entry := (map key).getD ⟨0, 0⟩
  Function.update map key
    (some ⟨entry.calls + 1, entry.totalOutputBytes + bytes⟩)

/-- One more under the key. -/
def increment {Key : Type} [DecidableEq Key] (map : Key → Option ℕ) (key : Key) :
    Key → Option ℕ :=
  Function.update map key (some ((map key).getD 0 + 1))

namespace Counts

def empty : Counts := ⟨fun _ => none, fun _ => none, fun _ => none, fun _ => none⟩

/-- A blocked command is counted by its text, every other failure by its kind. -/
def fail (counts : Counts) (info : CallInfo) (kind : FailureKind) : Counts :=
  match kind, info.execFullCmd with
  | .blocked, some fullCmd =>
      { counts with blockedCmds := increment counts.blockedCmds fullCmd }
  | kind, _ =>
      { counts with
        toolErrors := increment counts.toolErrors ⟨info.toolName, kind⟩ }

/-- One result of a call. -/
def charge (counts : Counts) (info : CallInfo) (content : String) : Counts :=
  let bytes := content.utf8ByteSize
  let counts := { counts with
    byTool := accumulate counts.byTool info.toolName bytes
    byExecCmd := match info.execCmd with
      | some cmd => accumulate counts.byExecCmd cmd bytes
      | none => counts.byExecCmd }
  match classifyFailure content with
  | some kind => counts.fail info kind
  | none => counts

end Counts

section Analyze

variable (parse : String → Option Json.Value)

def Acc.step (acc : Acc) : Message → Acc
  | .toolCalls _ calls =>
      { acc with pending := acc.pending ++ calls.map (callInfo parse) }
  | .tool _ content =>
      match acc.pending with
      | [] => acc
      | info :: pending => ⟨pending, acc.counts.charge info content⟩
  | _ => acc

def analyze (sessions : List (List Message)) : Report :=
  ⟨sessions.length,
    (sessions.flatten.foldl (Acc.step parse) ⟨[], .empty⟩).counts⟩

end Analyze

end Kitaebot.Context.Stats
