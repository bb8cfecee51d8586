import Kitaebot.Agent.Strikes
import Kitaebot.Core.Commands
import Kitaebot.Core.Text

/-!
# Git subprocesses

A git command either ran to an exit code or never got that far: it could not be
spawned, or it was killed at its timeout.
-/

namespace Kitaebot.Tools

open Agent Dialogue

structure CmdOutput where
  stdout : String
  stderr : String
  exitCode : ℤ
  deriving DecidableEq, Repr

/-- What became of a git subprocess. -/
abbrev Outcome := Except Agent.ToolError CmdOutput

namespace Outcome

def Succeeded (outcome : Outcome) : Prop :=
  ∃ out, outcome = .ok out ∧ out.exitCode = 0

/-- It exited, with a failure. -/
def Failed (outcome : Outcome) : Prop :=
  ∃ out, outcome = .ok out ∧ out.exitCode ≠ 0

/-- It was not spawned, or killed. -/
def CutOff (outcome : Outcome) : Prop :=
  ∃ error, outcome = .error error

/-- The trimmed text of a command that succeeded. -/
def Says (outcome : Outcome) (text : String) : Prop :=
  ∃ out, outcome = .ok out ∧ out.exitCode = 0 ∧ Text.trim out.stdout = text

theorem cases (outcome : Outcome) :
    outcome.Succeeded ∨ outcome.Failed ∨ outcome.CutOff := by
  cases outcome with
  | error error => exact .inr (.inr ⟨error, rfl⟩)
  | ok out =>
      by_cases hexit : out.exitCode = 0
      · exact .inl ⟨out, rfl, hexit⟩
      · exact .inr (.inl ⟨out, rfl, hexit⟩)

theorem Says.succeeded {outcome : Outcome} {text : String} (hspoken : outcome.Says text) :
    outcome.Succeeded := by
  obtain ⟨out, houtcome, hexit, -⟩ := hspoken
  exact ⟨out, houtcome, hexit⟩

theorem Succeeded.not_failed {outcome : Outcome} (hsucceeded : outcome.Succeeded) :
    ¬ outcome.Failed := by
  obtain ⟨out, rfl, hzero⟩ := hsucceeded
  rintro ⟨other, hother, hexit⟩
  cases hother
  exact hexit hzero

theorem Succeeded.not_cutOff {outcome : Outcome} (hsucceeded : outcome.Succeeded) :
    ¬ outcome.CutOff := by
  obtain ⟨out, rfl, -⟩ := hsucceeded
  rintro ⟨error, herror⟩
  cases herror

theorem Failed.not_succeeded {outcome : Outcome} (hfailed : outcome.Failed) :
    ¬ outcome.Succeeded := by
  obtain ⟨out, rfl, hexit⟩ := hfailed
  rintro ⟨other, hother, hzero⟩
  cases hother
  exact hexit hzero

theorem CutOff.not_succeeded {outcome : Outcome} (hcut : outcome.CutOff) :
    ¬ outcome.Succeeded := by
  obtain ⟨error, rfl⟩ := hcut
  rintro ⟨other, hother, -⟩
  cases hother

theorem CutOff.not_failed {outcome : Outcome} (hcut : outcome.CutOff) :
    ¬ outcome.Failed := by
  obtain ⟨error, rfl⟩ := hcut
  rintro ⟨other, hother, -⟩
  cases hother

end Outcome

/-- A command that ran to this code. -/
def exited (code : ℤ) (stdout : String) : Outcome :=
  .ok ⟨stdout, "", code⟩

theorem exited_says {code : ℤ} {stdout text : String}
    (hspoken : (exited code stdout).Says text) : Text.trim stdout = text := by
  obtain ⟨out, hout, -, htext⟩ := hspoken
  cases hout
  exact htext

/-- A failed step's message, carrying the git output. -/
def stepErr (what : String) (out : CmdOutput) : Agent.ToolError :=
  .commandFailed what out.exitCode
    (what ++ ": " ++ Text.trim out.stdout ++ "\n" ++ Text.trim out.stderr)

section Git

variable {State Command : Type}

def git (command : Command) : Dialogue Command Outcome Agent.ToolError CmdOutput :=
  .ask command fun outcome =>
    match outcome with
    | .ok out => .done out
    | .error error => .fail error

/-- Trimmed stdout of a git command that must succeed. -/
def gitOk (command : Command) (what : String) :
    Dialogue Command Outcome Agent.ToolError String := do
  let out ← git command
  if out.exitCode ≠ 0 then .fail (stepErr what out)
  else pure (Text.trim out.stdout)

variable {does : State → Command → Outcome → State → Prop} {command : Command}
  {before after : State} {exchanges : List (Exchange State Command Outcome)}

theorem plays_git {result : Except Agent.ToolError CmdOutput} :
    Plays does (git command) before exchanges result after ↔
      does before command result after ∧
        exchanges = [⟨before, command, result, after⟩] := by
  rw [git, plays_ask]
  constructor
  · rintro ⟨outcome, between, rest, hdoes, hplays, rfl⟩
    cases outcome with
    | ok out =>
        obtain ⟨rfl, rfl, rfl⟩ := plays_done.1 hplays
        exact ⟨hdoes, rfl⟩
    | error error =>
        obtain ⟨rfl, rfl, rfl⟩ := plays_fail.1 hplays
        exact ⟨hdoes, rfl⟩
  · rintro ⟨hdoes, rfl⟩
    cases result with
    | ok out => exact ⟨_, after, [], hdoes, .done out after, rfl⟩
    | error error => exact ⟨_, after, [], hdoes, .fail error after, rfl⟩

theorem plays_gitOk {what : String} {result : Except Agent.ToolError String} :
    Plays does (gitOk command what) before exchanges result after →
      ∃ outcome, does before command outcome after ∧
        exchanges = [⟨before, command, outcome, after⟩] ∧
          ((∃ text, outcome.Says text ∧ result = .ok text) ∨
            ¬ outcome.Succeeded ∧ ∃ error, result = .error error) := by
  intro hplays
  rcases plays_bind.1 hplays with
    ⟨out, between, early, late, hgit, hrest, rfl⟩ | ⟨error, hgit, rfl⟩
  · obtain ⟨hdoes, rfl⟩ := plays_git.1 hgit
    by_cases hexit : out.exitCode = 0
    · rw [if_neg (not_not.2 hexit)] at hrest
      obtain ⟨rfl, rfl, rfl⟩ := plays_done.1 hrest
      exact ⟨_, hdoes, rfl, .inl ⟨_, ⟨out, rfl, hexit, rfl⟩, rfl⟩⟩
    · rw [if_pos hexit] at hrest
      obtain ⟨rfl, rfl, rfl⟩ := plays_fail.1 hrest
      have hfailed : Outcome.Failed (.ok out) := ⟨out, rfl, hexit⟩
      exact ⟨_, hdoes, rfl, .inr ⟨hfailed.not_succeeded, _, rfl⟩⟩
  · obtain ⟨hdoes, rfl⟩ := plays_git.1 hgit
    have hcut : Outcome.CutOff (.error error) := ⟨error, rfl⟩
    exact ⟨_, hdoes, rfl, .inr ⟨hcut.not_succeeded, error, rfl⟩⟩

section Bind

variable {Value : Type} {result : Except Agent.ToolError Value}

theorem plays_git_bind
    {next : CmdOutput → Dialogue Command Outcome Agent.ToolError Value} :
    Plays does (git command >>= next) before exchanges result after ↔
      (∃ out between late, does before command (.ok out) between ∧
          Plays does (next out) between late result after ∧
            exchanges = ⟨before, command, .ok out, between⟩ :: late) ∨
        ∃ error, does before command (.error error) after ∧
          exchanges = [⟨before, command, .error error, after⟩] ∧
            result = .error error := by
  rw [plays_bind]
  constructor
  · rintro (⟨out, between, early, late, hgit, hnext, rfl⟩ | ⟨error, hgit, hresult⟩)
    · obtain ⟨hdoes, rfl⟩ := plays_git.1 hgit
      exact .inl ⟨out, between, late, hdoes, hnext, rfl⟩
    · obtain ⟨hdoes, hexchanges⟩ := plays_git.1 hgit
      exact .inr ⟨error, hdoes, hexchanges, hresult⟩
  · rintro (⟨out, between, late, hdoes, hnext, rfl⟩ | ⟨error, hdoes, hexchanges, hresult⟩)
    · exact .inl ⟨out, between, _, late, plays_git.2 ⟨hdoes, rfl⟩, hnext, rfl⟩
    · exact .inr ⟨error, plays_git.2 ⟨hdoes, hexchanges⟩, hresult⟩

theorem plays_gitOk_bind {what : String}
    {next : String → Dialogue Command Outcome Agent.ToolError Value}
    (hplays : Plays does (gitOk command what >>= next) before exchanges result after) :
    (∃ text outcome between late, outcome.Says text ∧
        does before command outcome between ∧
          Plays does (next text) between late result after ∧
            exchanges = ⟨before, command, outcome, between⟩ :: late) ∨
      ∃ outcome error, ¬ outcome.Succeeded ∧ does before command outcome after ∧
        exchanges = [⟨before, command, outcome, after⟩] ∧
          result = .error error := by
  rcases plays_bind.1 hplays with
    ⟨text, between, early, late, hgit, hnext, rfl⟩ | ⟨error, hgit, hresult⟩
  · obtain ⟨outcome, hdoes, rfl, hend⟩ := plays_gitOk hgit
    rcases hend with ⟨said, hspoken, hsaid⟩ | ⟨-, error, herror⟩
    · cases hsaid
      exact .inl ⟨text, outcome, between, late, hspoken, hdoes, hnext, rfl⟩
    · cases herror
  · obtain ⟨outcome, hdoes, hexchanges, hend⟩ := plays_gitOk hgit
    rcases hend with ⟨said, -, hsaid⟩ | ⟨hfailed, -, -⟩
    · cases hsaid
    · exact .inr ⟨outcome, error, hfailed, hdoes, hexchanges, hresult⟩

end Bind

variable {allowed : Command → Prop}

theorem asks_git_bind {Value : Type}
    {next : CmdOutput → Dialogue Command Outcome Agent.ToolError Value}
    (hallowed : allowed command) (hnext : ∀ out, (next out).Asks allowed) :
    (git command >>= next).Asks allowed := by
  refine ⟨hallowed, fun outcome => ?_⟩
  cases outcome with
  | ok out => exact hnext out
  | error error => trivial

theorem asks_gitOk_bind {Value : Type} {what : String}
    {next : String → Dialogue Command Outcome Agent.ToolError Value}
    (hallowed : allowed command) (hnext : ∀ text, (next text).Asks allowed) :
    (gitOk command what >>= next).Asks allowed := by
  refine Asks.bind (asks_git_bind hallowed fun out => ?_) hnext
  split
  · trivial
  · trivial

end Git

end Kitaebot.Tools
