import Kitaebot.Tools.GitCli
import Kitaebot.Tools.Refs

/-!
# The fixup tool

Meld the staged changes into an earlier commit: a fixup commit, an autosquash
rebase, a check that the final tree is the same, a force push.  What git does to
the checkout is a relation; a command that was cut off may have got as far as it
could before.  Hooks validate what is committed, they do not stage.
-/

namespace Kitaebot.Tools.Fixup

open Agent Dialogue

/-! ### The tool -/

inductive Command where
  /-- `diff --cached --quiet` -/
  | diffCached
  /-- `diff --quiet` -/
  | diff
  /-- `rev-parse --abbrev-ref HEAD` -/
  | abbrevRef
  /-- `log -1 --format=%H %s <target>` -/
  | log (target : String)
  /-- `merge-base --is-ancestor <commit> <of>` -/
  | isAncestor (commit of : String)
  /-- `commit --fixup <target>` -/
  | commitFixup (target : String)
  /-- `rev-parse HEAD` -/
  | revParseHead
  /-- `rev-parse HEAD^{tree}` -/
  | revParseTree
  /-- `rebase --autosquash <upstream>` -/
  | autosquash (upstream : String)
  /-- `rebase --abort` -/
  | rebaseAbort
  /-- `reset --hard <commit>` -/
  | resetHard (commit : String)
  /-- `reset --soft HEAD^` -/
  | resetSoft
  /-- `push --force-with-lease origin <branch>` -/
  | push (branch : String)
  deriving DecidableEq, Repr

abbrev Script := Dialogue Command Outcome Agent.ToolError

/-- The current branch and the target's resolved sha and subject. -/
def preflight (target : String) : Script (String × String × String) := do
  -- The tweak must be exactly the staged changes: a dirty worktree would block
  -- the rebase halfway through instead.
  let staged ← git .diffCached
  failIf (staged.exitCode = 0)
    (.invalidArguments "nothing staged; stage the tweak first")
  let unstaged ← git .diff
  failIf (unstaged.exitCode ≠ 0) (.invalidArguments
    "worktree has unstaged changes; stage them too or stash them first")
  let branch ← gitOk .abbrevRef "resolve branch"
  failIf (branch = "HEAD")
    (.invalidArguments "detached HEAD; check out the branch first")
  let line ← gitOk (.log target) "resolve target commit"
  let (targetSha, subject) := (Text.splitOnce ' ' line).getD (line, "")
  let short := Text.leading targetSha 12
  let onBranch ← git (.isAncestor targetSha "HEAD")
  failIf (onBranch.exitCode ≠ 0)
    (.invalidArguments (short ++ " is not an ancestor of HEAD"))
  let onBase ← git (.isAncestor targetSha "origin/HEAD")
  failIf (onBase.exitCode = 0) (.invalidArguments (short ++
    " is on the base branch; only unmerged branch commits can be rewritten"))
  pure (branch, targetSha, subject)

/-- Roll back to the state before the call, whatever the commands reply. -/
def restore (fixupHead : String) : Script Unit :=
  .ask .rebaseAbort fun _ => .ask (.resetHard fixupHead) fun _ =>
    .ask .resetSoft fun _ => .done ()

/-- `run` from the fixup commit on. -/
def meld (branch targetSha subject : String) : Script String := do
  let short := Text.leading targetSha 12
  let commit ← git (.commitFixup targetSha)
  failIf (commit.exitCode ≠ 0) (stepErr "fixup commit failed" commit)
  let fixupHead ← gitOk .revParseHead "resolve HEAD"
  let treeBefore ← gitOk .revParseTree "resolve tree"
  let rebase ← git (.autosquash (targetSha ++ "^"))
  if rebase.exitCode ≠ 0 then
    restore fixupHead
    .fail (.commandFailed "git rebase --autosquash" rebase.exitCode
      ("autosquash hit conflicts; everything is restored and the tweak is " ++
        "still staged — commit it normally with git_commit instead.\n" ++
        Text.trim rebase.stdout ++ "\n" ++ Text.trim rebase.stderr))
  else
    -- Melding never changes the final tree.
    let treeAfter ← gitOk .revParseTree "resolve tree"
    if treeAfter ≠ treeBefore then
      restore fixupHead
      .fail (.precondition
        ("tree changed across the autosquash (invariant violation); " ++
          "everything is restored and the tweak is still staged"))
    else
      let push ← git (.push branch)
      failIf (push.exitCode ≠ 0)
        (.commandFailed ("git push --force-with-lease origin " ++ branch)
          push.exitCode
          ("history rewritten locally but the push was rejected — the " ++
            "remote likely moved. Redo the PR from a fresh branch " ++
            "instead of retrying.\n" ++ Text.trim push.stderr))
      pure ("Melded the staged tweak into " ++ short ++ " (\"" ++ subject ++
        "\") and force-pushed " ++ branch ++
        ". History rewritten: commits after " ++ short ++ " have new SHAs.")

/-- A call, with what the resolution of its directory came to. -/
def run (resolved : Except Agent.ToolError Unit) (target : String) : Script String :=
  match resolved with
  | .error error => .fail error
  | .ok () => do
      let (branch, targetSha, subject) ← preflight target
      meld branch targetSha subject

/-! ### Git -/

/-- The object store: commits and trees are texts, their hashes. -/
structure Objects where
  parent : String → Option String
  tree : String → String
  emptyTree : String

/-- What a rebase in progress goes back to. -/
structure PausedRebase where
  headName : Option String
  origHead : String
  deriving DecidableEq, Repr

structure Checkout where
  refs : Refs
  rebase : Option PausedRebase
  /-- The tree of the index. -/
  index : String

namespace Objects

variable (objects : Objects)

def tipTree (checkout : Checkout) : String :=
  match checkout.refs.tip with
  | some commit => objects.tree commit
  | none => objects.emptyTree

/-- The staged changes became a commit on top of the branch. -/
def Committed (before : Checkout) (fixup : String) (after : Checkout) : Prop :=
  objects.parent fixup = before.refs.tip ∧ objects.tree fixup = before.index ∧
    before.index ≠ objects.tipTree before ∧
      after = { before with refs := before.refs.setTip fixup }

/-- A rebase ran to its end. -/
def Rebased (before after : Checkout) : Prop :=
  ∃ commit, after =
    { before with refs := before.refs.setTip commit, index := objects.tree commit }

/-- A rebase stopped, or was killed, on its way: the branch it rebases, HEAD and
the index may be anywhere. -/
def Interrupted (before after : Checkout) : Prop :=
  (∃ commit, before.refs.tip = some commit ∧
      after.rebase = some ⟨before.refs.head.branch?, commit⟩) ∧
    ∀ name, before.refs.head ≠ .onBranch name →
      after.refs.branches name = before.refs.branches name

/-- What git does to the checkout. -/
def Does (before : Checkout) (command : Command) (outcome : Outcome)
    (after : Checkout) : Prop :=
  match command with
  | .diffCached =>
      after = before ∧
        (outcome.Succeeded → before.index = objects.tipTree before)
  | .diff | .log _ | .isAncestor _ _ | .push _ => after = before
  | .abbrevRef =>
      after = before ∧ (outcome.Succeeded →
        outcome.Says (before.refs.head.branch?.getD "HEAD"))
  | .revParseHead =>
      after = before ∧ ∀ text, outcome.Says text → before.refs.tip = some text
  | .revParseTree =>
      after = before ∧ ∀ text, outcome.Says text →
        objects.tipTree before = text
  | .commitFixup _ =>
      (outcome.Succeeded ∧ ∃ fixup, objects.Committed before fixup after) ∨
        (outcome.Failed ∧ after = before) ∨
        outcome.CutOff ∧
          (after = before ∨ ∃ fixup, objects.Committed before fixup after)
  | .autosquash _ =>
      (outcome.Succeeded ∧ before.rebase = none ∧ objects.Rebased before after) ∨
        ¬ outcome.Succeeded ∧
          (after = before ∨ before.rebase = none ∧
            (objects.Rebased before after ∨ Interrupted before after))
  | .rebaseAbort =>
      match before.rebase with
      | none => ¬ outcome.Succeeded ∧ after = before
      | some paused =>
          outcome.Succeeded → after =
            { refs := before.refs.attach paused.headName paused.origHead
              rebase := none
              index := objects.tree paused.origHead }
  | .resetHard commit =>
      outcome.Succeeded → after =
        { before with
          refs := before.refs.setTip commit, index := objects.tree commit }
  | .resetSoft =>
      outcome.Succeeded → ∃ commit parent, before.refs.tip = some commit ∧
        objects.parent commit = some parent ∧
          after = { before with refs := before.refs.setTip parent }

end Objects

end Kitaebot.Tools.Fixup
