import Kitaebot.Tools.GitCli

/-!
# Cloned checkouts

The clone that an execution turn works in: it is there and healthy, or it is
cloned.  The file system calls reply like commands, an error as the tool error
it becomes.
-/

namespace Kitaebot.Tools.Checkout

open Agent Dialogue

/-- In-repo caches the per-turn clean must not touch. -/
def keptCaches : List String :=
  [".direnv", ".gcroots", "node_modules", ".venv"]

inductive Command where
  /-- Is `.git` a directory? -/
  | isDir
  | removeDirAll
  /-- Create the directory the clone goes into. -/
  | createParent
  | revParseGitDir
  | clone (url name : String)
  | status
  | symbolicRef
  | isAncestor
  | branch (name : String)
  | addAll
  | resetCaches
  | commit
  | fetch
  | checkoutBase
  | clean
  /-- Trust and evaluate the devShell. -/
  | warmDevshell
  deriving DecidableEq, Repr

/-- The arguments of git; the other calls have none. -/
def Command.args : Command → List String
  | isDir | removeDirAll | createParent | warmDevshell => []
  | revParseGitDir => ["rev-parse", "--git-dir"]
  | clone url name => ["clone", url, name]
  | status => ["status", "--porcelain", "--", "."] ++
      keptCaches.map fun cache => ":(exclude)" ++ cache
  | symbolicRef => ["symbolic-ref", "-q", "HEAD"]
  | isAncestor => ["merge-base", "--is-ancestor", "HEAD", "origin/HEAD"]
  | branch name => ["checkout", "-b", name]
  | addAll => ["add", "-A", "--", "."]
  | resetCaches => ["reset", "--quiet", "--"] ++ keptCaches
  | commit => ["-c", "user.name=kitaebot", "-c", "user.email=kitaebot@localhost",
      "-c", "commit.gpgsign=false", "commit", "--no-verify", "--allow-empty", "-m",
      "Park leftover work from an interrupted turn"]
  | fetch => ["fetch", "origin"]
  | checkoutBase => ["checkout", "--force", "--detach", "origin/HEAD"]
  | clean => ["clean", "-fdx"] ++ keptCaches.flatMap fun cache => ["-e", cache]

abbrev Script := Dialogue Command Outcome Agent.ToolError

/-- Run git, failing on nonzero exit. -/
def run (command : Command) : Script Unit := do
  let out ← git command
  failIf (out.exitCode ≠ 0)
    (.commandFailed ("git " ++ " ".intercalate command.args) out.exitCode
      ("git " ++ command.args.headD "" ++ " exited " ++ toString out.exitCode ++
        ": " ++ Text.trim out.stderr))

/-- Like `run`, but a non-zero exit is data here. -/
def runRead (command : Command) : Script (ℤ × String) := do
  let out ← git command
  pure (out.exitCode, out.stdout)

/-- A call to the file system. -/
def fileSystem (command : Command) : Script Unit :=
  .ask command fun outcome =>
    match outcome with
    | .ok _ => .done ()
    | .error error => .fail error

def isDir : Script Bool :=
  .ask .isDir fun outcome =>
    match outcome with
    | .ok out => .done (out.exitCode == 0)
    | .error _ => .done false

/-- Where a clone goes. -/
structure Destination where
  url : String
  rel : String
  /-- The directory as it is displayed. -/
  dir : String
  hasParent : Bool
  deriving DecidableEq, Repr

inductive Ensured where
  /-- The directory was missing, or held a corrupt skeleton that was replaced. -/
  | cloned
  /-- A healthy checkout was left untouched. -/
  | existing
  deriving DecidableEq, Repr

def cloneInto (destination : Destination) : Script Ensured := do
  failIf (destination.hasParent = false) (.invalidArguments
    ("clone destination " ++ destination.dir ++ " has no parent directory"))
  fileSystem .createParent
  let name := (Text.rsplit '/' destination.rel).headD destination.rel
  let cloned ← attempt (run (.clone destination.url name))
  match cloned with
  | .ok () => pure .cloned
  -- A failed clone must not leave a partial `.git` either.
  | .error error => .ask .removeDirAll fun _ => .fail error

/-- Clone unless a healthy checkout already exists. -/
def ensureCloned (destination : Destination) : Script Ensured := do
  let present ← isDir
  if present then
    let healthy ← attempt (run .revParseGitDir)
    match healthy with
    | .ok () => pure .existing
    | .error _ =>
        fileSystem .removeDirAll
        cloneInto destination
  else cloneInto destination

end Kitaebot.Tools.Checkout
