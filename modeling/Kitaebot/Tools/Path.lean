import Kitaebot.Core.FileTree

/-!
# Workspace-confined path resolution

The guard accepts a path text by its spelling: traversal is refused in the
text, an absolute spelling is stripped to the relative one, and the daemon-owned
fence compares components.  Only the two resolvers of existing files look at
the tree.  What the file system makes of the spelling is in its links.
-/

namespace Kitaebot.Tools

open PathText FileTree

inductive ToolError where
  | blocked (operation guidance : String)
  | io (operation path : String) (source : WalkError)
  deriving DecidableEq, Repr

def configFile : String := "config.toml"
def contextDir : String := "context"
def stateDir : String := "state"
def reviewChecklist : String := "review-checklist.md"

/-- A guard holds the real path of a directory, its root. -/
structure PathGuard (tree : FileTree) where
  root : Location
  names : ∀ name ∈ root, IsName name
  directory : tree.entry root = some .directory

/-- The guard of a workspace that is a directory. -/
def PathGuard.new (tree : FileTree) (limit : ℕ) (workspace : PathText) :
    Option (PathGuard tree) :=
  match hcanonical : tree.canonicalize limit workspace with
  | .error _ => none
  | .ok root =>
      if hdirectory : tree.entry root = some .directory then
        some ⟨root, (settled_walk tree.settled_root
          (canonicalize_eq_ok hcanonical).1).names, hdirectory⟩
      else none

/-- Reject writes into daemon-owned paths. -/
def denyDaemonOwned (path : PathText) : Except ToolError Unit :=
  match (components path).filterMap Component.name? with
  | [] => .ok ()
  | first :: rest =>
      if first :: rest = [stateDir, reviewChecklist] then .ok ()
      else if first ∈ [configFile, contextDir, stateDir] then
        .error (.blocked ("write " ++ display path)
          (first ++ " is daemon-owned; file tools may read it but not modify it"))
      else .ok ()

namespace PathGuard

variable {tree : FileTree} (guard : PathGuard tree)

def workspaceRelative (path : String) : Except ToolError PathText :=
  match stripPrefix (segments path) guard.root with
  | some stripped => .ok stripped
  | none =>
      if isAbsolute (segments path) then
        .error (.blocked path
          "absolute path outside the workspace; paths are relative to the workspace root")
      else .ok (segments path)

def validateAndJoin (path : String) : Except ToolError PathText :=
  if path.toList.contains '\x00' then .error (.blocked path "null byte in path")
  else if "../".toList <:+: path.toList ∨ "..\\".toList <:+: path.toList ∨
      path = ".." then
    .error (.blocked path "path traversal detected")
  else do
    let relative ← guard.workspaceRelative path
    return join guard.root relative

def ensureUnderRoot (resolved : PathText) (original : String) :
    Except ToolError PathText :=
  if startsWith resolved (ofLocation guard.root) then .ok resolved
  else .error (.blocked original "path escapes workspace")

/-- Resolve a path to an existing file. -/
def resolve (limit : ℕ) (path : String) : Except ToolError PathText := do
  let candidate ← guard.validateAndJoin path
  match tree.canonicalize limit candidate with
  | .error source => .error (.io "resolve" path source)
  | .ok resolved => guard.ensureUnderRoot (ofLocation resolved) path

/-- Resolve a path for a file that may not exist yet. -/
def resolveNew (path : String) : Except ToolError PathText := do
  let candidate ← guard.validateAndJoin path
  guard.ensureUnderRoot candidate path

def resolveWritable (limit : ℕ) (path : String) : Except ToolError PathText := do
  let relative ← guard.workspaceRelative path
  denyDaemonOwned relative
  guard.resolve limit path

def resolveWritableNew (path : String) : Except ToolError PathText := do
  let relative ← guard.workspaceRelative path
  denyDaemonOwned relative
  guard.resolveNew path

end PathGuard

/-- The four resolvers. -/
inductive Resolver where
  | resolve
  | resolveNew
  | resolveWritable
  | resolveWritableNew
  deriving DecidableEq, Repr

namespace Resolver

def writable : Resolver → Bool
  | resolve => false
  | resolveNew => false
  | resolveWritable => true
  | resolveWritableNew => true

def run {tree : FileTree} (guard : PathGuard tree) (limit : ℕ) (path : String) :
    Resolver → Except ToolError PathText
  | resolve => guard.resolve limit path
  | resolveNew => guard.resolveNew path
  | resolveWritable => guard.resolveWritable limit path
  | resolveWritableNew => guard.resolveWritableNew path

end Resolver

/-! ## Confinement -/

/-- The names below the root of something the daemon owns. -/
def DaemonOwned (names : List String) : Prop :=
  (names = [configFile] ∨ names.head? = some contextDir ∨
    names.head? = some stateDir) ∧ names ≠ [stateDir, reviewChecklist]

instance (names : List String) : Decidable (DaemonOwned names) :=
  inferInstanceAs (Decidable (_ ∧ _))

/-- A location a resolver may lead to. -/
def Confined (root : Location) (resolver : Resolver) (location : Location) : Prop :=
  ∃ names, location = root ++ names ∧
    (resolver.writable = true → ¬ DaemonOwned names)

/-- No link is met, and the spelling does not end above the root or in the state
directory; or what is left to read after the last link names a location in
bounds. -/
def LinksConfined (tree : FileTree) (limit : ℕ) (root : Location)
    (resolver : Resolver) (relative : PathText) : Prop :=
  match tree.firstLink root relative with
  | none =>
      (relative.filterMap bodyComponent = [.parentDir] → root = []) ∧
      (resolver.writable = true → relative.filterMap bodyComponent ≠
        [.normal stateDir, .normal reviewChecklist, .parentDir])
  | some _ =>
      let stretch := tree.lastStretch limit root relative
      Confined root resolver (collapse stretch.1 stretch.2)

/-! ## What the resolvers accept -/

namespace PathGuard

variable {tree : FileTree} (guard : PathGuard tree)

theorem workspaceRelative_ok {path : String} {relative : PathText}
    (hpath : ParentLast (segments path))
    (hrelative : guard.workspaceRelative path = .ok relative) :
    isAbsolute relative = false ∧ ParentLast relative := by
  rw [workspaceRelative] at hrelative
  cases hstrip : stripPrefix (segments path) guard.root with
  | some stripped =>
      simp only [hstrip] at hrelative
      cases hrelative
      exact stripPrefix_relative hpath hstrip
  | none =>
      simp only [hstrip] at hrelative
      split_ifs at hrelative with habsolute
      cases hrelative
      exact ⟨by simpa using habsolute, hpath⟩

/-- An accepted text becomes a relative path under the root whose parent
directory, if any, is its last segment. -/
theorem validateAndJoin_ok {path : String} {candidate : PathText}
    (hcandidate : guard.validateAndJoin path = .ok candidate) :
    ∃ relative, guard.workspaceRelative path = .ok relative ∧
      ParentLast relative ∧ candidate = "" :: guard.root ++ relative := by
  rw [validateAndJoin] at hcandidate
  split_ifs at hcandidate with hnull htraversal
  have hpath := parentLast_segments fun hwithin => htraversal (.inl hwithin)
  cases hrelative : guard.workspaceRelative path with
  | error error => rw [hrelative] at hcandidate; cases hcandidate
  | ok relative =>
      rw [hrelative] at hcandidate
      cases hcandidate
      obtain ⟨habsolute, hlast⟩ := guard.workspaceRelative_ok hpath hrelative
      refine ⟨relative, rfl, hlast, ?_⟩
      rw [join, habsolute]
      rfl

theorem walk_candidate (limit : ℕ) (relative : PathText) :
    tree.walk limit [] ("" :: guard.root ++ relative) =
      tree.walk limit guard.root relative := by
  rw [List.cons_append, walk_slash, walk_names tree limit guard.names]
  · rw [List.nil_append]
  · rw [List.nil_append, guard.directory]
    rfl
  · intro target
    rw [List.nil_append, guard.directory]
    simp

/-- What a resolver accepts, and where the text it returns leads. -/
structure Accepts (limit : ℕ) (resolver : Resolver) (path : String)
    (returned relative : PathText) : Prop where
  spelling : guard.workspaceRelative path = .ok relative
  parentLast : ParentLast relative
  fence : resolver.writable = true → denyDaemonOwned relative = .ok ()
  walk : ∀ reached, tree.walk limit [] returned = .ok reached →
    tree.walk limit guard.root relative = .ok reached

/-- An existing file is returned by its real path, below the root. -/
theorem resolve_eq_ok {limit : ℕ} {path : String} {returned : PathText}
    (hresolve : guard.resolve limit path = .ok returned) :
    ∃ candidate location, guard.validateAndJoin path = .ok candidate ∧
      tree.canonicalize limit candidate = .ok location ∧
      returned = ofLocation location ∧ guard.root <+: location := by
  rw [resolve] at hresolve
  cases hcandidate : guard.validateAndJoin path with
  | error error => rw [hcandidate] at hresolve; cases hresolve
  | ok candidate =>
      rw [hcandidate] at hresolve
      cases hcanonical : tree.canonicalize limit candidate with
      | error error =>
          simp only [bind, Except.bind, hcanonical] at hresolve
          cases hresolve
      | ok location =>
          simp only [bind, Except.bind, hcanonical, ensureUnderRoot] at hresolve
          split_ifs at hresolve with hroot
          cases hresolve
          have hsettled :=
            settled_walk tree.settled_root (canonicalize_eq_ok hcanonical).1
          exact ⟨candidate, location, rfl, hcanonical, rfl,
            (startsWith_ofLocation hsettled.names guard.names).mp hroot⟩

theorem resolve_ok {limit : ℕ} {path : String} {returned : PathText}
    (hresolve : guard.resolve limit path = .ok returned) :
    ∃ relative, guard.Accepts limit .resolve path returned relative := by
  obtain ⟨candidate, location, hcandidate, hcanonical, rfl, _⟩ :=
    guard.resolve_eq_ok hresolve
  obtain ⟨relative, hrelative, hlast, rfl⟩ := guard.validateAndJoin_ok hcandidate
  refine ⟨relative, hrelative, hlast, nofun, ?_⟩
  intro reached hreached
  rw [walk_canonical hcanonical] at hreached
  cases hreached
  rw [← guard.walk_candidate]
  exact (canonicalize_eq_ok hcanonical).1

theorem resolveNew_ok {limit : ℕ} {path : String} {returned : PathText}
    (hresolve : guard.resolveNew path = .ok returned) :
    ∃ relative, guard.Accepts limit .resolveNew path returned relative := by
  rw [resolveNew] at hresolve
  cases hcandidate : guard.validateAndJoin path with
  | error error => rw [hcandidate] at hresolve; cases hresolve
  | ok candidate =>
      rw [hcandidate] at hresolve
      obtain ⟨relative, hrelative, hlast, rfl⟩ :=
        guard.validateAndJoin_ok hcandidate
      simp only [bind, Except.bind, ensureUnderRoot] at hresolve
      split_ifs at hresolve
      cases hresolve
      refine ⟨relative, hrelative, hlast, nofun, ?_⟩
      intro reached hreached
      rwa [guard.walk_candidate] at hreached

/-- The writable resolvers are the others behind the fence. -/
theorem writable_ok {limit : ℕ} {path : String} {returned : PathText}
    {resolver fenced : Resolver}
    {run : Except ToolError PathText}
    (hrun : (do
      let relative ← guard.workspaceRelative path
      denyDaemonOwned relative
      run) = .ok returned)
    (hplain : run = .ok returned →
      ∃ relative, guard.Accepts limit resolver path returned relative) :
    ∃ relative, guard.Accepts limit fenced path returned relative := by
  cases hrelative : guard.workspaceRelative path with
  | error error => rw [hrelative] at hrun; cases hrun
  | ok relative =>
      rw [hrelative] at hrun
      cases hdeny : denyDaemonOwned relative with
      | error error =>
          simp only [bind, Except.bind, hdeny] at hrun
          cases hrun
      | ok _ =>
          simp only [bind, Except.bind, hdeny] at hrun
          obtain ⟨other, haccepts⟩ := hplain hrun
          have hsame := haccepts.spelling
          rw [hrelative] at hsame
          cases hsame
          exact ⟨relative, hrelative, haccepts.parentLast, fun _ => hdeny,
            haccepts.walk⟩

theorem accepts_of_run {limit : ℕ} {resolver : Resolver} {path : String}
    {returned : PathText} (hrun : resolver.run guard limit path = .ok returned) :
    ∃ relative, guard.Accepts limit resolver path returned relative := by
  cases resolver with
  | resolve => exact guard.resolve_ok hrun
  | resolveNew => exact guard.resolveNew_ok hrun
  | resolveWritable => exact guard.writable_ok hrun guard.resolve_ok
  | resolveWritableNew => exact guard.writable_ok hrun guard.resolveNew_ok

end PathGuard

/-! ## Spellings without links -/

/-- The names a writable resolver lets through. -/
theorem not_daemonOwned_of_deny {relative : PathText}
    (hdeny : denyDaemonOwned relative = .ok ()) :
    names relative = [stateDir, reviewChecklist] ∨
      ∀ first, (names relative).head? = some first →
        first ∉ [configFile, contextDir, stateDir] := by
  rw [denyDaemonOwned, filterMap_name_components] at hdeny
  cases hnames : names relative with
  | nil => exact .inr nofun
  | cons first rest =>
      simp only [hnames] at hdeny
      split_ifs at hdeny with hchecklist howned
      · exact .inl hchecklist
      · right
        intro other hother
        cases hother
        exact howned

theorem not_daemonOwned_of_head {names : List String}
    (hhead : ∀ first, names.head? = some first →
      first ∉ [configFile, contextDir, stateDir]) : ¬ DaemonOwned names := by
  rintro ⟨hconfig | hcontext | hstate, _⟩
  · exact hhead configFile (by rw [hconfig]; rfl) (by simp)
  · exact hhead contextDir hcontext (by simp)
  · exact hhead stateDir hstate (by simp)

theorem confined_append {root : Location} {resolver : Resolver}
    {names : List String} :
    Confined root resolver (root ++ names) ↔
      (resolver.writable = true → ¬ DaemonOwned names) := by
  constructor
  · rintro ⟨other, hother, howned⟩
    rwa [List.append_cancel_left hother]
  · intro howned
    exact ⟨names, rfl, howned⟩

theorem head?_dropLast_of {Value : Type*} {values : List Value} {first : Value}
    (hfirst : values.dropLast.head? = some first) : values.head? = some first := by
  cases values with
  | nil => cases hfirst
  | cons value values =>
      cases values with
      | nil => cases hfirst
      | cons other values => exact hfirst

/-- Without links only two spellings lead astray. -/
theorem confined_collapse_iff {root : Location} {resolver : Resolver}
    {relative : PathText} (hlast : ParentLast relative)
    (hfence : resolver.writable = true → denyDaemonOwned relative = .ok ()) :
    Confined root resolver (collapse root relative) ↔
      (relative.filterMap bodyComponent = [.parentDir] → root = []) ∧
      (resolver.writable = true → relative.filterMap bodyComponent ≠
        [.normal stateDir, .normal reviewChecklist, .parentDir]) := by
  rcases hlast.cases with hnone | ⟨before, rfl, hbefore⟩
  · rw [collapse_names root hnone, confined_append,
      filterMap_body_of_no_parent hnone]
    have hforms : ∀ components : List Component,
        (names relative).map .normal ≠ components ++ [.parentDir] := by
      intro components heq
      have hmem : Component.parentDir ∈ (names relative).map .normal := by
        rw [heq]
        simp
      simp at hmem
    refine iff_of_true ?_ ⟨fun heq => absurd heq (hforms []),
      fun _ => hforms [.normal stateDir, .normal reviewChecklist]⟩
    intro hwritable
    rcases not_daemonOwned_of_deny (hfence hwritable) with hchecklist | hhead
    · rw [hchecklist]
      decide
    · exact not_daemonOwned_of_head hhead
  · have hnames : names (before ++ [".."]) = names before := by
      rw [names, List.filter_append]
      exact List.append_nil _
    have hcollapse : collapse root (before ++ [".."]) =
        (root ++ names before).dropLast := by
      rw [collapse_append, collapse_names root hbefore]
      rfl
    have hbody : (before ++ [".."]).filterMap bodyComponent =
        (names before).map .normal ++ [.parentDir] := by
      rw [List.filterMap_append, filterMap_body_of_no_parent hbefore]
      rfl
    rw [hcollapse, hbody]
    cases hfirst : names before with
    | nil =>
        rw [List.append_nil]
        refine ⟨?_, fun hforms => ?_⟩
        · rintro ⟨rest, hrest, _⟩
          refine ⟨fun _ => ?_, fun _ => by simp⟩
          have hlength := congrArg List.length hrest
          rw [List.length_dropLast, List.length_append] at hlength
          exact List.eq_nil_of_length_eq_zero (by omega)
        · rw [hforms.1 rfl]
          exact ⟨[], rfl, fun _ => by decide⟩
    | cons first rest =>
        rw [List.dropLast_append_of_ne_nil (List.cons_ne_nil first rest),
          confined_append]
        refine ⟨fun howned => ⟨fun hform => by simp at hform,
          fun hwritable hform => ?_⟩, ?_⟩
        · have hchecklist : first :: rest = [stateDir, reviewChecklist] :=
            normal_injective.list_map (List.append_cancel_right hform)
          rw [hchecklist] at howned
          exact howned hwritable (by decide)
        · rintro ⟨_, hforms⟩ hwritable
          have hdeny := not_daemonOwned_of_deny (hfence hwritable)
          rw [hnames, hfirst] at hdeny
          rcases hdeny with hchecklist | hhead
          · rw [hchecklist] at hforms
            exact absurd rfl (hforms hwritable)
          · exact not_daemonOwned_of_head fun other hother =>
              hhead other (head?_dropLast_of hother)

/-! ## Confinement through links -/

/-- What a resolver accepts leads to a file in bounds exactly when the links on
the way, and without links the spelling, say so. -/
theorem run_confined_iff {tree : FileTree} (guard : PathGuard tree) {limit : ℕ}
    {resolver : Resolver} {path : String} {returned : PathText}
    (hrun : resolver.run guard limit path = .ok returned)
    {reached : Location} (hreached : tree.walk limit [] returned = .ok reached) :
    ∃ relative, guard.workspaceRelative path = .ok relative ∧
      (Confined guard.root resolver reached ↔
        LinksConfined tree limit guard.root resolver relative) := by
  obtain ⟨relative, haccepts⟩ := guard.accepts_of_run hrun
  refine ⟨relative, haccepts.spelling, ?_⟩
  have hwalk := haccepts.walk reached hreached
  rw [LinksConfined]
  cases hlink : tree.firstLink guard.root relative with
  | some next => rw [walk_lastStretch tree hwalk]
  | none =>
      have hlexical : reached = collapse guard.root relative := by
        cases limit with
        | zero => exact tree.walkWith_of_no_link _ hlink hwalk
        | succ limit => exact tree.walkWith_of_no_link _ hlink hwalk
      rw [hlexical]
      exact confined_collapse_iff haccepts.parentLast haccepts.fence

/-- The resolver of existing files never leaves the root. -/
theorem resolve_confined {tree : FileTree} (guard : PathGuard tree) {limit : ℕ}
    {path : String} {returned : PathText}
    (hrun : guard.resolve limit path = .ok returned) {reached : Location}
    (hreached : tree.walk limit [] returned = .ok reached) :
    Confined guard.root .resolve reached := by
  obtain ⟨_, location, _, hcanonical, rfl, rest, rfl⟩ := guard.resolve_eq_ok hrun
  rw [walk_canonical hcanonical] at hreached
  cases hreached
  exact ⟨rest, rfl, nofun⟩

/-! ## A workspace with links -/

/-- A workspace with a link out of it, one into the state directory and one
between two of its own directories. -/
def linkedTree : FileTree :=
  .ofEntries
    [(["etc"], .directory), (["etc", "passwd"], .file), (["ws"], .directory),
     (["ws", "state"], .directory), (["ws", "state", "kitaebot.db"], .file),
     (["ws", "memory"], .directory), (["ws", "out"], .link "/etc"),
     (["ws", "own"], .link "state"), (["ws", "notes"], .link "./memory/")]
    (by decide)

def linkedGuard : PathGuard linkedTree where
  root := ["ws"]
  names := by decide
  directory := rfl

/-- A link between own directories stays in bounds. -/
theorem run_confined_notes :
    ∃ relative, linkedGuard.workspaceRelative "notes/today.md" = .ok relative ∧
      (Confined linkedGuard.root .resolveWritableNew
          ["ws", "memory", "today.md"] ↔
        LinksConfined linkedTree 40 linkedGuard.root .resolveWritableNew
          relative) := by
  have hrun : Resolver.run linkedGuard 40 "notes/today.md" .resolveWritableNew =
      .ok ["", "ws", "notes", "today.md"] := by decide +kernel
  have hreached : linkedTree.walk 40 [] ["", "ws", "notes", "today.md"] =
      .ok ["ws", "memory", "today.md"] := by decide +kernel
  exact run_confined_iff linkedGuard hrun hreached

/-- The guard accepts a file outside the workspace and one in the state
directory. -/
theorem linkedGuard_escapes :
    (∃ returned reached, linkedGuard.resolveNew "out/passwd" = .ok returned ∧
      linkedTree.walk 40 [] returned = .ok reached ∧
      ¬ linkedGuard.root <+: reached) ∧
    (∃ returned reached,
      linkedGuard.resolveWritable 40 "own/kitaebot.db" = .ok returned ∧
      linkedTree.walk 40 [] returned = .ok reached ∧
      ¬ Confined linkedGuard.root .resolveWritable reached) := by
  refine ⟨⟨["", "ws", "out", "passwd"], ["etc", "passwd"], ?_, ?_, ?_⟩,
    ["", "ws", "state", "kitaebot.db"], ["ws", "state", "kitaebot.db"], ?_, ?_, ?_⟩
  · decide +kernel
  · decide +kernel
  · decide
  · decide +kernel
  · decide +kernel
  · have hroot : ["ws", "state", "kitaebot.db"] =
        linkedGuard.root ++ ["state", "kitaebot.db"] := rfl
    rw [hroot, confined_append]
    decide

end Kitaebot.Tools
