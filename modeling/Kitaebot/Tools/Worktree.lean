import Kitaebot.Tools.Checkout
import Kitaebot.Tools.Refs

/-!
# What git does to a clone

The branches and HEAD, the remote default branch, the index and the working tree,
path by path.  A command that fails, or is cut off, may have done part of its
work.
-/

namespace Kitaebot.Tools.Checkout

/-- A path by its components. -/
abbrev Path := List String

/-- In one of the caches at the top of the repository. -/
def kept (path : Path) : Bool :=
  match path with
  | [] => false
  | first :: _ => first ∈ keptCaches

/-- What a cache pattern of `clean` matches, at any depth. -/
def excluded (path : Path) : Bool :=
  path.any (· ∈ keptCaches)

/-- The object store and the ignore rules; commits and contents are their hashes. -/
structure Objects where
  tree : String → Path → Option String
  /-- The second commit is the first one or an ancestor of it. -/
  Reaches : String → String → Prop
  refl : ∀ commit, Reaches commit commit
  trans : ∀ {first second third}, Reaches first second → Reaches second third →
    Reaches first third
  ignored : Path → Bool

structure Repository where
  refs : Refs
  /-- The remote default branch, as last fetched. -/
  base : Option String
  index : Path → Option String
  worktree : Path → Option String

/-- The branch exists, at HEAD's commit if there is one. -/
def Repository.created (repo : Repository) (name : String) : Repository :=
  match repo.refs.tip with
  | some commit =>
      { repo with refs :=
          { repo.refs with
            branches := Function.update repo.refs.branches name (some commit) } }
  | none => repo

/-- HEAD is on the new branch. -/
def Repository.switched (repo : Repository) (name : String) : Repository :=
  { repo.created name with
    refs := { (repo.created name).refs with head := .onBranch name } }

namespace Objects

variable (objects : Objects) (repo : Repository)

def headTree (path : Path) : Option String :=
  match repo.refs.tip with
  | some commit => objects.tree commit path
  | none => none

/-- Neither tracked nor to be tracked. -/
def LeftOut (path : Path) : Prop :=
  repo.index path = none ∧ objects.ignored path = true

/-- Something that `status` lists. -/
def Dirty : Prop :=
  ∃ path, kept path = false ∧
    (repo.index path ≠ objects.headTree repo path ∨
      repo.worktree path ≠ repo.index path ∧ ¬ objects.LeftOut repo path)

/-- A new commit of the index, on HEAD's branch. -/
def Committed (commit : String) (after : Repository) : Prop :=
  (∀ tip, repo.refs.tip = some tip → objects.Reaches commit tip) ∧
    objects.tree commit = repo.index ∧
      after = { repo with refs := repo.refs.setTip commit }

/-- What git does to a repository that is there. -/
def Works (command : Command) (outcome : Outcome) (after : Repository) : Prop :=
  match command with
  | .status =>
      after = repo ∧ (outcome.Succeeded → (outcome.Says "" ↔ ¬ objects.Dirty repo))
  | .symbolicRef =>
      after = repo ∧ (outcome.Succeeded → ∃ name, repo.refs.head = .onBranch name)
  | .isAncestor =>
      after = repo ∧ (outcome.Succeeded → ∃ tip base, repo.refs.tip = some tip ∧
        repo.base = some base ∧ objects.Reaches base tip)
  | .branch name =>
      (outcome.Succeeded ∧ repo.refs.branches name = none ∧
          after = repo.switched name) ∨
        ¬ outcome.Succeeded ∧ (after = repo ∨ repo.refs.branches name = none ∧
          (after = repo.created name ∨ after = repo.switched name))
  | .addAll =>
      ∃ index, after = { repo with index } ∧ (outcome.Succeeded → ∀ path,
        (objects.LeftOut repo path → index path = none) ∧
          (¬ objects.LeftOut repo path → index path = repo.worktree path))
  | .resetCaches =>
      ∃ index, after = { repo with index } ∧
        (∀ path, kept path = false → index path = repo.index path) ∧
        (outcome.Succeeded → ∀ path, kept path = true →
          index path = objects.headTree repo path)
  | .commit =>
      (outcome.Succeeded ∧ ∃ commit, objects.Committed repo commit after) ∨
        (outcome.Failed ∧ after = repo) ∨
        outcome.CutOff ∧
          (after = repo ∨ ∃ commit, objects.Committed repo commit after)
  | .fetch => ∃ base, after = { repo with base }
  | .checkoutBase =>
      after.refs.branches = repo.refs.branches ∧ after.base = repo.base ∧
        (outcome.Succeeded → ∃ base, repo.base = some base ∧
          after.refs.head = .detached base ∧ after.index = objects.tree base ∧
          ∀ path, after.worktree path =
            if repo.index path = none ∧ objects.tree base path = none then
              repo.worktree path
            else objects.tree base path)
  | .clean =>
      ∃ worktree, after = { repo with worktree } ∧
        (∀ path, worktree path = repo.worktree path ∨
          worktree path = none ∧ repo.index path = none ∧ excluded path = false) ∧
        (outcome.Succeeded → ∀ path, repo.index path = none →
          excluded path = false → worktree path = none)
  | _ => after = repo

/-- What a call does to the directory of the checkout. -/
def Does (before : Option Repository) (command : Command) (outcome : Outcome)
    (after : Option Repository) : Prop :=
  match command with
  | .isDir => after = before ∧ (outcome.Succeeded ↔ before.isSome)
  | .removeDirAll => (∃ out, outcome = .ok out) → after = none
  | .createParent => after = before
  | .clone _ _ => outcome.Succeeded → ∃ repo, after = some repo
  | command =>
      match before with
      | none => after = none ∧ ¬ outcome.Succeeded
      | some repo => ∃ worked, after = some worked ∧
          objects.Works repo command outcome worked

end Objects

end Kitaebot.Tools.Checkout
