import Kitaebot.Core.Replay
import Kitaebot.Tools.GitCli
import Kitaebot.Tools.Refs

/-!
# The rebase tool

Rebase the current branch onto the moved default branch: `start` fetches and
begins, a conflict pauses, `continue` resumes, `abort` restores.  Only the end of
a rebase pushes.  What git does is a relation; how one commit is picked on top of
another is a parameter of it.
-/

namespace Kitaebot.Tools.Rebase

open Agent Dialogue

/-! ### The tool -/

/-- The two directories a rebase keeps its state in. -/
inductive Backend where
  | merge
  | apply
  deriving DecidableEq, Repr

inductive Command where
  /-- `rev-parse --git-path <directory>` -/
  | gitPath (backend : Backend)
  /-- Does the directory exist? -/
  | isThere (backend : Backend) (path : String)
  /-- Read `head-name` in the directory. -/
  | readHeadName (backend : Backend) (path : String)
  /-- `rev-parse --abbrev-ref HEAD` -/
  | abbrevHead
  /-- `diff --quiet` -/
  | diff
  /-- `diff --cached --quiet` -/
  | diffCached
  /-- `fetch origin` -/
  | fetch
  /-- `rev-parse --abbrev-ref origin/HEAD` -/
  | abbrevOriginHead
  /-- `rev-parse HEAD` -/
  | revParseHead
  /-- `rev-parse --verify origin/<branch>` -/
  | verifyRemote (branch : String)
  /-- `rebase <base>` -/
  | rebase (base : String)
  /-- `-c core.editor=true rebase --continue` -/
  | rebaseContinue
  /-- `rebase --abort` -/
  | rebaseAbort
  /-- `diff --name-only --diff-filter=U` -/
  | listConflicts
  /-- `push --force-with-lease=<branch>:<expected> origin <branch>` -/
  | pushLease (branch expected : String)
  /-- `push -u origin <branch>` -/
  | pushNew (branch : String)
  deriving DecidableEq, Repr

abbrev Script := Dialogue Command Outcome Agent.ToolError

inductive Action where
  | abort
  | «continue»
  | start
  deriving DecidableEq, Repr

def isThere (backend : Backend) (path : String) : Script Bool :=
  .ask (.isThere backend path) fun outcome =>
    match outcome with
    | .ok out => .done (out.exitCode == 0)
    | .error _ => .done false

/-- Whether one of the directories is there. -/
def inProgressIn : List Backend → Script Bool
  | [] => pure false
  | backend :: backends => do
      let path ← gitOk (.gitPath backend) "resolve git dir"
      let there ← isThere backend path
      if there then pure true else inProgressIn backends

/-- Whether the checkout has a paused rebase. -/
def inProgress : Script Bool :=
  inProgressIn [.merge, .apply]

def readHeadName (backend : Backend) (path : String) : Script (Option String) :=
  .ask (.readHeadName backend path) fun outcome =>
    match outcome with
    | .ok out => .done (some out.stdout)
    | .error _ => .done none

def rebasedBranchIn : List Backend → Script (Option String)
  | [] => pure none
  | backend :: backends => do
      let path ← gitOk (.gitPath backend) "resolve git dir"
      let headName ← readHeadName backend path
      match headName with
      | some refname => pure (some (Text.trimStart "refs/heads/" (Text.trim refname)))
      | none => rebasedBranchIn backends

/-- The branch name recorded in the paused rebase's state, if any. -/
def rebasedBranch : Script (Option String) :=
  rebasedBranchIn [.merge, .apply]

/-- A stopped rebase is either a conflict or a genuine failure. -/
def pauseOrFail (branch base : String) (out : CmdOutput) : Script String := do
  let paused ← inProgress
  failIf (paused = false) (stepErr "git rebase" out)
  let conflicted ← gitOk .listConflicts "list conflicts"
  pure ("Rebase of " ++ branch ++ " onto " ++ base ++ " paused on conflicts:\n" ++
    conflicted ++ "\n\nResolve each file (edit away the <<<<<<< markers), stage " ++
    "it with `git add <file>` via exec, then call git_rebase with action " ++
    "\"continue\". Call with action \"abort\" to restore the branch instead.")

/-- Lease-pinned force push, or an ordinary publish of a branch never pushed. -/
def push (branch base : String) : Script String := do
  let lease ← git (.verifyRemote branch)
  let pushed ← git (if lease.exitCode = 0 then
    .pushLease branch (Text.trim lease.stdout) else .pushNew branch)
  failIf (pushed.exitCode ≠ 0)
    (.commandFailed ("git push --force-with-lease origin " ++ branch) pushed.exitCode
      ("rebased locally but the push was refused — the remote branch moved " ++
        "since the fetch. The local rebase stands; inspect the remote before " ++
        "retrying.\n" ++ Text.trim pushed.stderr))
  pure ("Rebased " ++ branch ++ " onto " ++ base ++ " and force-pushed " ++
    "(lease-protected). History rewritten: the branch's commits have new SHAs.")

/-- What follows a rebase command. -/
def settle (branch base : String) (rebase : CmdOutput) : Script String :=
  if rebase.exitCode ≠ 0 then pauseOrFail branch base rebase else push branch base

/-- `start` up to its rebase: the current branch and the default branch. -/
def prepare : Script (String × String) := do
  let busy ← inProgress
  failIf (busy = true)
    (.precondition "a rebase is already in progress; continue or abort it first")
  let branch ← gitOk .abbrevHead "resolve branch"
  failIf (branch = "HEAD")
    (.precondition "detached HEAD; check out the branch first")
  -- A dirty tree wedges the rebase midway.
  let unstaged ← git .diff
  let staged ← git .diffCached
  failIf (unstaged.exitCode ≠ 0 ∨ staged.exitCode ≠ 0)
    (.precondition "worktree has uncommitted changes; commit or stash them first")
  let fetch ← git .fetch
  failIf (fetch.exitCode ≠ 0) (stepErr "git fetch origin" fetch)
  let base ← gitOk .abbrevOriginHead "resolve default branch"
  failIf ("origin/" ++ branch = base) (.precondition
    (branch ++ " is the default branch; rebase is for feature branches"))
  -- A branch that diverged from its remote could carry pre-cooked history.
  let head ← gitOk .revParseHead "resolve HEAD"
  let remote ← git (.verifyRemote branch)
  failIf (remote.exitCode = 0 ∧ Text.trim remote.stdout ≠ head) (.precondition
    (branch ++ " has diverged from origin/" ++ branch ++ "; push or restore it " ++
      "first — this tool only replays what the remote already has"))
  pure (branch, base)

def start : Script String := do
  let (branch, base) ← prepare
  let rebase ← git (.rebase base)
  settle branch base rebase

def resume : Script String := do
  let paused ← inProgress
  failIf (paused = false)
    (.precondition "no rebase in progress; use action \"start\"")
  let recorded ← rebasedBranch
  match recorded with
  | none =>
      .fail (.precondition "rebase state has no recorded branch; abort and start over")
  | some branch => do
      let base ← gitOk .abbrevOriginHead "resolve default branch"
      let cont ← git .rebaseContinue
      settle branch base cont

def abort : Script String := do
  let paused ← inProgress
  failIf (paused = false)
    (.precondition "no rebase in progress; nothing to abort")
  let out ← git .rebaseAbort
  failIf (out.exitCode ≠ 0) (stepErr "git rebase --abort" out)
  pure "Rebase aborted; the branch is back to its pre-rebase state."

def execute : Action → Script String
  | .abort => abort
  | .continue => resume
  | .start => start

/-! ### Git -/

/-- A rebase in progress, as the checkout holds it. -/
structure PausedRebase where
  backend : Backend
  /-- The branch it rebases; none for a detached HEAD. -/
  branch : Option String
  origHead : String
  /-- The commits still to be picked, the one it stopped at first. -/
  todo : List String
  deriving DecidableEq, Repr

/-- The text of `head-name`. -/
def PausedRebase.headName (rebase : PausedRebase) : String :=
  match rebase.branch with
  | some branch => "refs/heads/" ++ branch
  | none => "detached HEAD"

/-- A checkout and its remote. -/
structure Repository where
  refs : Refs
  /-- The remote-tracking branches, as `origin/<branch>`. -/
  tracking : String → Option String
  /-- What `origin/HEAD` stands for. -/
  originHead : Option String
  /-- The configuration of `origin` is that of the clone. -/
  configured : Bool
  rebase : Option PausedRebase
  /-- The staged tree. -/
  index : String
  /-- The branches of the remote. -/
  server : String → Option String
  serverDefault : String

/-- Which commits a rebase replays, oldest first, and how it picks one. -/
structure Git extends Picking String String where
  between : String → String → List String
  /-- The first commit has the second one among its ancestors. -/
  Descends : String → String → Prop

namespace Repository

variable (repo : Repository)

/-- A local branch goes before a remote-tracking one. -/
def lookup (name : String) : Option String :=
  match repo.refs.branches name with
  | some commit => some commit
  | none => repo.tracking name

def paused (rebase : PausedRebase) (head index : String) : Repository :=
  { repo with
    refs := { repo.refs with head := .detached head }
    rebase := some rebase
    index }

/-- HEAD is back on the branch of the rebase. -/
def returned (branch : Option String) (commit index : String) : Repository :=
  { repo with refs := repo.refs.attach branch commit, rebase := none, index }

/-- The remote took the local branch. -/
def Lands (branch : String) (after : Repository) : Prop :=
  ∃ commit, repo.refs.branches branch = some commit ∧ after =
    { repo with
      server := Function.update repo.server branch (some commit)
      tracking := Function.update repo.tracking ("origin/" ++ branch) (some commit) }

end Repository

namespace Git

variable (git : Git)

/-- Where a rebase command can lead from HEAD at a commit. -/
inductive Rebases (before : Repository) (branch : Option String)
    (origHead head : String) (todo : List String) : Repository → Prop
  | finished (index : String) (all : todo = []) :
      Rebases before branch origHead head todo (before.returned branch head index)
  | paused (backend : Backend) (index : String) :
      Rebases before branch origHead head todo
        (before.paused ⟨backend, branch, origHead, todo⟩ head index)

def Does (before : Repository) (command : Command) (outcome : Outcome)
    (after : Repository) : Prop :=
  match command with
  | .gitPath _ | .diff | .diffCached | .listConflicts => after = before
  | .isThere backend _ =>
      after = before ∧ (outcome.Succeeded ↔
        ∃ rebase, before.rebase = some rebase ∧ rebase.backend = backend)
  | .readHeadName backend _ =>
      after = before ∧ ∀ out, outcome = .ok out → ∃ rebase,
        before.rebase = some rebase ∧ rebase.backend = backend ∧
          Text.trim out.stdout = rebase.headName
  | .abbrevHead =>
      after = before ∧ ∀ text, outcome.Says text →
        before.refs.head.branch?.getD "HEAD" = text
  | .fetch =>
      ∃ tracking, after = { before with tracking } ∧
        (outcome.Succeeded → before.configured = true → ∀ branch,
          before.server branch ≠ none →
            tracking ("origin/" ++ branch) = before.server branch)
  | .abbrevOriginHead =>
      after = before ∧ ∀ text, outcome.Says text → before.originHead = some text
  | .revParseHead =>
      after = before ∧ ∀ text, outcome.Says text → before.refs.tip = some text
  | .verifyRemote branch =>
      after = before ∧
        (∀ text, outcome.Says text → before.lookup ("origin/" ++ branch) = some text) ∧
        (outcome.Failed → before.lookup ("origin/" ++ branch) = none)
  | .rebase base =>
      (¬ outcome.Succeeded ∧ after = before) ∨
        before.rebase = none ∧ ∃ onto origHead head todo,
          before.lookup base = some onto ∧ before.refs.tip = some origHead ∧
            git.Picks onto (git.between onto origHead) head todo ∧
            Rebases before before.refs.head.branch? origHead head todo after ∧
              (outcome.Succeeded → after.rebase = none)
  | .rebaseContinue =>
      (¬ outcome.Succeeded ∧ after = before) ∨
        ∃ rebase tip head todo, before.rebase = some rebase ∧
          before.refs.tip = some tip ∧
            git.Resumes tip rebase.todo before.index head todo ∧
            Rebases before rebase.branch rebase.origHead head todo after ∧
              (outcome.Succeeded → after.rebase = none)
  | .rebaseAbort =>
      after = before ∨ ∃ rebase index, before.rebase = some rebase ∧
        after = before.returned rebase.branch rebase.origHead index
  | .pushLease branch expected =>
      (¬ outcome.Succeeded ∧ after = before) ∨
        before.server branch = some expected ∧ before.Lands branch after
  | .pushNew branch =>
      (¬ outcome.Succeeded ∧ after = before) ∨ before.Lands branch after ∧
        ∀ old new, before.server branch = some old →
          before.refs.branches branch = some new → git.Descends new old

end Git

end Kitaebot.Tools.Rebase
