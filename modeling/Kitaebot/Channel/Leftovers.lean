import Kitaebot.Channel.ExecutionCheckout
import Kitaebot.Tools.Worktree

/-!
# What becomes of leftovers

Parking leaves the working tree alone and moves HEAD forward at most; once it has
returned, a local branch holds HEAD's commits and a recovered branch what was not
committed.  The reset after it touches no branch.
-/

namespace Kitaebot.Channel.ExecutionCheckout

open Agent Dialogue Tools Tools.Checkout

abbrev Step := Exchange (Option Repository) Command Tools.Outcome

/-- A non-zero exit that lists nothing. -/
def Mute (outcome : Tools.Outcome) : Prop :=
  ∃ out, outcome = .ok out ∧ out.exitCode ≠ 0 ∧ Text.trim out.stdout = ""

def Recovered (name : String) : Prop :=
  ∃ rest, name = recoveredPrefix ++ rest

section Objects

variable (objects : Objects) (before : Repository)

/-- A commit of HEAD that the remote default branch did not hold. -/
def Unpublished (commit : String) : Prop :=
  (∃ tip, before.refs.tip = some tip ∧ objects.Reaches tip commit) ∧
    ∀ base, before.base = some base → ¬ objects.Reaches base commit

/-- The working tree differs from HEAD in a file outside the caches: a deletion,
or a file that is tracked or not ignored. -/
def Changed (path : Path) : Prop :=
  kept path = false ∧ before.worktree path ≠ objects.headTree before path ∧
    (before.worktree path = none ∨ ¬ objects.LeftOut before path)

/-- A local branch holds the commit. -/
def OnBranch (repo : Repository) (commit : String) : Prop :=
  ∃ name tip, repo.refs.branches name = some tip ∧ objects.Reaches tip commit

/-- HEAD holds the commit. -/
def OnHead (repo : Repository) (commit : String) : Prop :=
  ∃ tip, repo.refs.tip = some tip ∧ objects.Reaches tip commit

/-- A branch holds the working tree's version of the file. -/
def CommittedOn (name : String) (repo : Repository) (path : Path) : Prop :=
  ∃ tip, repo.refs.branches name = some tip ∧
    objects.tree tip path = before.worktree path

/-- The checkout is there, every commit is on a local branch or, after a failure,
still on HEAD, and every change is in the working tree or on a recovered branch,
which is the one returned. -/
def Preserved (result : Except Agent.ToolError (Option String))
    (after : Option Repository) : Prop :=
  ∃ repo, after = some repo ∧
    (∀ commit, Unpublished objects before commit →
      OnBranch objects repo commit ∨
        (∃ error, result = .error error) ∧ OnHead objects repo commit) ∧
    ∀ path, Changed objects before path →
      repo.worktree path = before.worktree path ∨
        ∃ name, Recovered name ∧ CommittedOn objects before name repo path ∧
          ∀ parked, result = .ok parked → parked = some name

/-- What parking leaves. -/
structure Parked (result : Except Agent.ToolError (Option String))
    (repo : Repository) : Prop where
  worktree : repo.worktree = before.worktree
  head : ∀ commit, OnHead objects before commit → OnHead objects repo commit
  commits : ∀ parked, result = .ok parked → ∀ commit,
    Unpublished objects before commit → OnBranch objects repo commit
  changes : ∀ parked, result = .ok parked → ∀ path,
    Changed objects before path → ∃ name, parked = some name ∧ Recovered name ∧
      CommittedOn objects before name repo path

end Objects

/-! ### Single commands -/

section Plays

variable {does : Option Repository → Command → Tools.Outcome → Option Repository → Prop}
  {start final : Option Repository} {steps : List Step} {command : Command}

theorem plays_run {result : Except Agent.ToolError Unit}
    (hplays : Plays does (run command) start steps result final) :
    ∃ outcome, does start command outcome final ∧
      steps = [⟨start, command, outcome, final⟩] ∧
        (outcome.Succeeded ∧ result = .ok () ∨
          ¬ outcome.Succeeded ∧ ∃ error, result = .error error) := by
  rcases plays_git_bind.1 hplays with
    ⟨out, between, rest, hdoes, hcheck, rfl⟩ | ⟨error, hdoes, rfl, rfl⟩
  · obtain ⟨rfl, rfl, rfl⟩ := plays_failIf.1 hcheck
    by_cases hexit : out.exitCode = 0
    · rw [if_neg (not_not.2 hexit)]
      exact ⟨_, hdoes, rfl, .inl ⟨⟨out, rfl, hexit⟩, rfl⟩⟩
    · have hfailed : Tools.Outcome.Failed (.ok out) := ⟨out, rfl, hexit⟩
      rw [if_pos hexit]
      exact ⟨_, hdoes, rfl, .inr ⟨hfailed.not_succeeded, _, rfl⟩⟩
  · have hcut : Tools.Outcome.CutOff (.error error) := ⟨error, rfl⟩
    exact ⟨_, hdoes, rfl, .inr ⟨hcut.not_succeeded, error, rfl⟩⟩

theorem plays_run_bind {Value : Type} {next : Unit → Script Value}
    {result : Except Agent.ToolError Value}
    (hplays : Plays does (run command >>= next) start steps result final) :
    (∃ outcome between late, outcome.Succeeded ∧
        does start command outcome between ∧
          Plays does (next ()) between late result final ∧
            steps = ⟨start, command, outcome, between⟩ :: late) ∨
      ∃ outcome error, ¬ outcome.Succeeded ∧ does start command outcome final ∧
        steps = [⟨start, command, outcome, final⟩] ∧ result = .error error := by
  rcases plays_bind.1 hplays with
    ⟨value, between, early, late, hrun, hnext, rfl⟩ | ⟨error, hrun, rfl⟩
  · obtain ⟨outcome, hdoes, rfl, ⟨hsucceeded, -⟩ | ⟨-, error, herror⟩⟩ := plays_run hrun
    · exact .inl ⟨outcome, between, late, hsucceeded, hdoes, hnext, rfl⟩
    · cases herror
  · obtain ⟨outcome, hdoes, rfl, ⟨-, hvalue⟩ | ⟨hstops, -⟩⟩ := plays_run hrun
    · cases hvalue
    · exact .inr ⟨outcome, error, hstops, hdoes, rfl, rfl⟩

theorem plays_runRead_bind {Value : Type} {next : ℤ × String → Script Value}
    {result : Except Agent.ToolError Value}
    (hplays : Plays does (runRead command >>= next) start steps result final) :
    (∃ out between late, does start command (.ok out) between ∧
        Plays does (next (out.exitCode, out.stdout)) between late result final ∧
          steps = ⟨start, command, .ok out, between⟩ :: late) ∨
      ∃ error, does start command (.error error) final ∧
        steps = [⟨start, command, .error error, final⟩] ∧ result = .error error := by
  rcases plays_bind.1 hplays with
    ⟨value, between, early, late, hrun, hnext, rfl⟩ | ⟨error, hrun, hresult⟩
  · rcases plays_git_bind.1 hrun with
      ⟨out, middle, rest, hdoes, hdone, rfl⟩ | ⟨error, -, -, herror⟩
    · obtain ⟨rfl, hvalue, rfl⟩ := plays_done.1 hdone
      cases hvalue
      exact .inl ⟨out, between, late, hdoes, hnext, rfl⟩
    · cases herror
  · rcases plays_git_bind.1 hrun with
      ⟨out, middle, rest, -, hdone, -⟩ | ⟨other, hdoes, hsteps, herror⟩
    · cases (plays_done.1 hdone).2.1
    · cases herror
      exact .inr ⟨error, hdoes, hsteps, hresult⟩

end Plays

section Parking

variable {objects : Objects} {before repo after : Repository}

theorem Changed.dirty {path : Path} (hchanged : Changed objects before path) :
    objects.Dirty before := by
  obtain ⟨hkept, hdiffers, htracked⟩ := hchanged
  refine ⟨path, hkept, ?_⟩
  by_cases hindex : before.index path = objects.headTree before path
  · right
    rw [hindex]
    refine ⟨hdiffers, fun hleft => ?_⟩
    rcases htracked with hnone | htracked
    · apply hdiffers
      rw [hnone, ← hindex, hleft.1]
    · exact htracked hleft
  · exact .inl hindex

theorem Parked.of_error {error : Agent.ToolError} (hworktree : repo.worktree = before.worktree)
    (hhead : ∀ commit, OnHead objects before commit → OnHead objects repo commit) :
    Parked objects before (.error error) repo where
  worktree := hworktree
  head := hhead
  commits := fun _ herror => by cases herror
  changes := fun _ herror => by cases herror

theorem tip_created (name : String) : (repo.created name).refs.tip = repo.refs.tip := by
  cases htip : repo.refs.tip with
  | none => rw [Repository.created, htip, htip]
  | some commit =>
      rw [Repository.created, htip]
      cases hhead : repo.refs.head with
      | detached other =>
          rw [Refs.tip, hhead] at htip
          simp [Refs.tip, hhead, htip]
      | onBranch branch =>
          rw [Refs.tip_of_onBranch hhead] at htip
          by_cases hbranch : branch = name
          · subst hbranch
            simp [Refs.tip, hhead]
          · simp [Refs.tip, hhead, Function.update_of_ne hbranch, htip]

/-- With HEAD on a branch that was just created, HEAD's commit is that branch's. -/
theorem created_branch {name : String} (hfresh : repo.refs.branches name = none) :
    (repo.created name).refs.branches name = repo.refs.tip := by
  cases htip : repo.refs.tip with
  | none => rw [Repository.created, htip, hfresh]
  | some commit => simp [Repository.created, htip]

theorem worktree_created (name : String) :
    (repo.created name).worktree = repo.worktree := by
  rw [Repository.created]
  split
  · rfl
  · rfl

theorem index_created (name : String) : (repo.created name).index = repo.index := by
  rw [Repository.created]
  split
  · rfl
  · rfl

/-- A new branch moves neither HEAD's commit nor a file, however far it got. -/
theorem branch_keeps {name : String} {outcome : Tools.Outcome}
    (hworks : objects.Works repo (.branch name) outcome after) :
    after.refs.tip = repo.refs.tip ∧ after.worktree = repo.worktree ∧
      after.index = repo.index := by
  have hfull : repo.refs.branches name = none →
      (repo.switched name).refs.tip = repo.refs.tip := created_branch
  rcases hworks with ⟨-, hfresh, rfl⟩ | ⟨-, rfl | ⟨hfresh, rfl | rfl⟩⟩
  · exact ⟨hfull hfresh, worktree_created name, index_created name⟩
  · exact ⟨rfl, rfl, rfl⟩
  · exact ⟨tip_created name, worktree_created name, index_created name⟩
  · exact ⟨hfull hfresh, worktree_created name, index_created name⟩

theorem branch_succeeds {name : String} {outcome : Tools.Outcome}
    (hworks : objects.Works repo (.branch name) outcome after)
    (hsucceeded : outcome.Succeeded) : after.refs.head = .onBranch name := by
  rcases hworks with ⟨-, -, rfl⟩ | ⟨hstops, -⟩
  · rfl
  · exact absurd hsucceeded hstops

theorem OnHead.of_tip {commit : String} (htip : after.refs.tip = repo.refs.tip)
    (honHead : OnHead objects repo commit) : OnHead objects after commit := by
  obtain ⟨tip, hhead, hreaches⟩ := honHead
  exact ⟨tip, htip.trans hhead, hreaches⟩

theorem OnHead.onBranch {commit name : String} (hhead : repo.refs.head = .onBranch name)
    (honHead : OnHead objects repo commit) : OnBranch objects repo commit := by
  obtain ⟨tip, htip, hreaches⟩ := honHead
  exact ⟨name, tip, by rw [← Refs.tip_of_onBranch hhead, htip], hreaches⟩

/-- A commit of the leftovers, however far it got. -/
theorem commit_keeps {outcome : Tools.Outcome}
    (hworks : objects.Works repo .commit outcome after) :
    after.worktree = repo.worktree ∧
      ∀ commit, OnHead objects repo commit → OnHead objects after commit := by
  have hcommitted : ∀ parked, objects.Committed repo parked after →
      after.worktree = repo.worktree ∧
        ∀ commit, OnHead objects repo commit → OnHead objects after commit := by
    rintro parked ⟨hparent, -, rfl⟩
    refine ⟨rfl, ?_⟩
    rintro commit ⟨tip, htip, hreaches⟩
    exact ⟨parked, Refs.tip_setTip, objects.trans (hparent tip htip) hreaches⟩
  rcases hworks with ⟨-, parked, hcommit⟩ | ⟨-, rfl⟩ | ⟨-, rfl | ⟨parked, hcommit⟩⟩
  · exact hcommitted parked hcommit
  · exact ⟨rfl, fun _ honHead => honHead⟩
  · exact ⟨rfl, fun _ honHead => honHead⟩
  · exact hcommitted parked hcommit

/-- What `add` staged of a changed file is the working tree's version. -/
theorem added_index {outcome : Tools.Outcome} {path : Path}
    (hworks : objects.Works repo .addAll outcome after) (hsucceeded : outcome.Succeeded)
    (htracked : repo.worktree path = none ∨ ¬ objects.LeftOut repo path) :
    after.index path = repo.worktree path := by
  obtain ⟨index, rfl, hadded⟩ := hworks
  by_cases hleft : objects.LeftOut repo path
  · rw [htracked.resolve_right (not_not.2 hleft)]
    exact (hadded hsucceeded path).1 hleft
  · exact (hadded hsucceeded path).2 hleft

/-- Nothing is parked that HEAD's own branch or the default branch holds. -/
theorem parked_none (hclean : ¬ objects.Dirty before)
    (hheld : ∀ commit, Unpublished objects before commit →
      OnBranch objects before commit) : Parked objects before (.ok none) before where
  worktree := rfl
  head := fun _ honHead => honHead
  commits := fun _ _ => hheld
  changes := fun _ _ _ hchanged => absurd hchanged.dirty hclean

/-- Once HEAD is on the recovered branch its commits are on a local branch. -/
theorem parked_clean {epoch : ℕ} {outcome : Tools.Outcome} (hclean : ¬ objects.Dirty before)
    (hworks : objects.Works before (.branch (recoveredPrefix ++ toString epoch))
      outcome after) (hsucceeded : outcome.Succeeded) :
    Parked objects before (.ok (some (recoveredPrefix ++ toString epoch))) after where
  worktree := (branch_keeps hworks).2.1
  head := fun _ honHead => honHead.of_tip (branch_keeps hworks).1
  commits := fun _ _ _ hunpublished => OnHead.onBranch
    (branch_succeeds hworks hsucceeded)
    (OnHead.of_tip (branch_keeps hworks).1 hunpublished.1)
  changes := fun _ _ _ hchanged => absurd hchanged.dirty hclean

theorem parked_dirty {epoch : ℕ} {branched added reset : Repository}
    {first second third fourth : Tools.Outcome}
    (hbranch : objects.Works before (.branch (recoveredPrefix ++ toString epoch))
      first branched) (hfirst : first.Succeeded)
    (hadd : objects.Works branched .addAll second added) (hsecond : second.Succeeded)
    (hreset : objects.Works added .resetCaches third reset)
    (hcommit : objects.Works reset .commit fourth after) (hfourth : fourth.Succeeded) :
    Parked objects before (.ok (some (recoveredPrefix ++ toString epoch))) after := by
  obtain ⟨htip, hworktree, hindex⟩ := branch_keeps hbranch
  have hhead := branch_succeeds hbranch hfirst
  have hparked : ∃ parked, objects.Committed reset parked after := by
    rcases hcommit with ⟨-, hparked⟩ | ⟨hfailed, -⟩ | ⟨hcut, -⟩
    · exact hparked
    · exact absurd hfourth hfailed.not_succeeded
    · exact absurd hfourth hcut.not_succeeded
  obtain ⟨parked, hparent, htree, rfl⟩ := hparked
  have hadded : ∀ path, Changed objects before path →
      added.index path = before.worktree path := by
    intro path hchanged
    rw [← hworktree]
    apply added_index hadd hsecond
    rw [hworktree, Objects.LeftOut, hindex]
    exact hchanged.2.2
  obtain ⟨index, rfl, -⟩ := hadd
  obtain ⟨index', rfl, hkeeps, -⟩ := hreset
  have hparkedBranch : (branched.refs.setTip parked).branches
      (recoveredPrefix ++ toString epoch) = some parked := by
    have hset : (branched.refs.setTip parked).head.branch? =
        some (recoveredPrefix ++ toString epoch) := by
      rw [Refs.branch?_setTip, hhead]
      rfl
    rw [← Refs.tip_of_onBranch (Refs.onBranch_iff.2 hset), Refs.tip_setTip]
  have hheld : ∀ commit, OnHead objects before commit →
      objects.Reaches parked commit := by
    rintro commit ⟨tip, hbefore, hreaches⟩
    exact objects.trans (hparent tip (htip.trans hbefore)) hreaches
  constructor
  · exact hworktree
  · intro commit honHead
    exact ⟨parked, Refs.tip_setTip, hheld commit honHead⟩
  · intro _ _ commit hunpublished
    exact ⟨_, parked, hparkedBranch, hheld commit hunpublished.1⟩
  · intro _ hresult path hchanged
    cases hresult
    refine ⟨_, rfl, ⟨_, rfl⟩, parked, hparkedBranch, ?_⟩
    rw [htree]
    exact (hkeeps path hchanged.1).trans (hadded path hchanged)

/-- From a checkout whose changes are told rightly, a call to park. -/
theorem parking_parks {epoch : ℕ} {dirty : Prop} [Decidable dirty] {stranded : Bool}
    {steps : List Step} {final : Option Repository}
    {result : Except Agent.ToolError (Option String)}
    (hdirty : ¬ dirty → ¬ objects.Dirty before)
    (hstranded : stranded = false → ∀ commit, Unpublished objects before commit →
      OnBranch objects before commit)
    (hplays : Plays objects.Does (do
      if ¬ dirty ∧ stranded = false then (pure none : Script (Option String))
      else
        let name := recoveredPrefix ++ toString epoch
        run (.branch name)
        if dirty then
          run .addAll
          run .resetCaches
          run .commit
          pure (some name)
        else pure (some name)) (some before) steps result final) :
    ∃ repo, final = some repo ∧ Parked objects before result repo := by
  split at hplays
  next hnothing =>
    obtain ⟨-, rfl, rfl⟩ := plays_done.1 hplays
    exact ⟨before, rfl, parked_none (hdirty hnothing.1) (hstranded hnothing.2)⟩
  next =>
    rcases plays_run_bind hplays with
      ⟨first, between, late, hfirst, ⟨branched, rfl, hbranch⟩, hrest, -⟩ |
        ⟨first, error, -, ⟨branched, rfl, hbranch⟩, -, rfl⟩
    swap
    · obtain ⟨htip, hworktree, -⟩ := branch_keeps hbranch
      exact ⟨branched, rfl, .of_error hworktree fun _ => OnHead.of_tip htip⟩
    split at hrest
    next =>
      obtain ⟨htip, hworktree, -⟩ := branch_keeps hbranch
      rcases plays_run_bind hrest with
        ⟨second, between, late, hsecond, ⟨added, rfl, hadd⟩, hrest2, -⟩ |
          ⟨second, error, -, ⟨added, rfl, hadd⟩, -, rfl⟩
      swap
      · obtain ⟨index, rfl, -⟩ := hadd
        exact ⟨_, rfl, .of_error hworktree fun _ => OnHead.of_tip htip⟩
      rcases plays_run_bind hrest2 with
        ⟨third, between, late, -, ⟨reset, rfl, hreset⟩, hrest3, -⟩ |
          ⟨third, error, -, ⟨reset, rfl, hreset⟩, -, rfl⟩
      swap
      · obtain ⟨index, rfl, -⟩ := hadd
        obtain ⟨index', rfl, -⟩ := hreset
        exact ⟨_, rfl, .of_error hworktree fun _ => OnHead.of_tip htip⟩
      rcases plays_run_bind hrest3 with
        ⟨fourth, between, late, hfourth, ⟨parked, rfl, hcommit⟩, hrest4, -⟩ |
          ⟨fourth, error, -, ⟨parked, rfl, hcommit⟩, -, rfl⟩
      · obtain ⟨-, rfl, rfl⟩ := plays_done.1 hrest4
        exact ⟨parked, rfl,
          parked_dirty hbranch hfirst hadd hsecond hreset hcommit hfourth⟩
      · obtain ⟨index, rfl, -⟩ := hadd
        obtain ⟨index', rfl, -⟩ := hreset
        obtain ⟨hkept, hheads⟩ := commit_keeps hcommit
        exact ⟨parked, rfl, .of_error (hkept.trans hworktree)
          fun commit honHead => hheads commit (OnHead.of_tip htip honHead)⟩
    next hclean =>
      obtain ⟨-, rfl, rfl⟩ := plays_done.1 hrest
      exact ⟨branched, rfl, parked_clean (hdirty hclean) hbranch hfirst⟩

theorem parkLeftovers_parks {epoch : ℕ} {steps : List Step}
    {final : Option Repository} {result : Except Agent.ToolError (Option String)}
    (hplays : Plays objects.Does (parkLeftovers epoch) (some before) steps result final)
    (hstatus : ∀ step ∈ steps, step.command = .status → ¬ Mute step.reply) :
    ∃ repo, final = some repo ∧ Parked objects before result repo := by
  have huntouched : ∀ error, Parked objects before (.error error) before := fun error =>
    .of_error rfl fun _ honHead => honHead
  unfold parkLeftovers at hplays
  rcases plays_runRead_bind hplays with
    ⟨listed, between, late, ⟨worked, rfl, rfl, htruth⟩, hrest, rfl⟩ |
      ⟨error, ⟨worked, rfl, rfl, -⟩, -, rfl⟩
  swap
  · exact ⟨worked, rfl, huntouched error⟩
  have hdirty : ¬ Text.trim listed.stdout ≠ "" → ¬ objects.Dirty worked := by
    intro hblank
    have hexit : listed.exitCode = 0 := by
      by_contra hexit
      exact hstatus _ (List.mem_cons_self ..) rfl
        ⟨listed, rfl, hexit, not_not.1 hblank⟩
    exact (htruth ⟨listed, rfl, hexit⟩).1 ⟨listed, rfl, hexit, not_not.1 hblank⟩
  rcases plays_runRead_bind hrest with
    ⟨attached, between, late, ⟨again, rfl, rfl, hattached⟩, hrest2, -⟩ |
      ⟨error, ⟨again, rfl, rfl, -⟩, -, rfl⟩
  swap
  · exact ⟨again, rfl, huntouched error⟩
  by_cases hexit : attached.exitCode = 0
  · -- HEAD is on a branch, which keeps its own commits.
    obtain ⟨name, hname⟩ := hattached ⟨attached, rfl, hexit⟩
    simp only [hexit, if_true] at hrest2
    apply parking_parks hdirty _ hrest2
    intro _ commit hunpublished
    exact OnHead.onBranch hname hunpublished.1
  · simp only [hexit, if_false] at hrest2
    rcases plays_runRead_bind hrest2 with
      ⟨ancestor, between, late, ⟨worked, rfl, rfl, hreached⟩, hrest3, -⟩ |
        ⟨error, ⟨worked, rfl, rfl, -⟩, -, rfl⟩
    swap
    · exact ⟨worked, rfl, huntouched error⟩
    apply parking_parks hdirty _ hrest3
    -- What the default branch reaches was not HEAD's alone.
    intro hstranded commit hunpublished
    have hzero : ancestor.exitCode = 0 := by simpa using hstranded
    obtain ⟨tip, base, htip, hbase, hreaches⟩ := hreached ⟨ancestor, rfl, hzero⟩
    obtain ⟨⟨other, hother, hholds⟩, hunreached⟩ := hunpublished
    rw [htip] at hother
    cases hother
    exact absurd (objects.trans hreaches hholds) (hunreached base hbase)

end Parking

/-! ### The reset -/

section Reset

variable {objects : Objects} {before repo : Repository} {final : Option Repository}

/-- The commands after parking touch no branch. -/
def Command.resets : Command → Bool
  | .fetch | .checkoutBase | .clean | .warmDevshell => true
  | _ => false

theorem resets_keep {command : Command} {outcome : Tools.Outcome}
    (hdoes : objects.Does (some repo) command outcome final)
    (hresets : Command.resets command = true) :
    ∃ reset, final = some reset ∧ reset.refs.branches = repo.refs.branches := by
  cases command with
  | fetch =>
      obtain ⟨reset, rfl, base, rfl⟩ := hdoes
      exact ⟨_, rfl, rfl⟩
  | checkoutBase =>
      obtain ⟨reset, rfl, hbranches, -⟩ := hdoes
      exact ⟨reset, rfl, hbranches⟩
  | clean =>
      obtain ⟨reset, rfl, worktree, rfl, -⟩ := hdoes
      exact ⟨_, rfl, rfl⟩
  | warmDevshell =>
      obtain ⟨reset, rfl, rfl⟩ := hdoes
      exact ⟨_, rfl, rfl⟩
  | _ => cases hresets

theorem asks_run {allowed : Command → Prop} {command : Command}
    (hallowed : allowed command) : (run command).Asks allowed :=
  asks_git_bind hallowed fun _ => Asks.failIf

/-- The reset once the leftovers are parked. -/
def reset (parked : Option String) : Script (Option String) := do
  run .fetch
  run .checkoutBase
  run .clean
  .ask .warmDevshell fun _ => pure parked

theorem asks_reset {parked : Option String} :
    (reset parked).Asks (fun command => Command.resets command = true) := by
  apply (asks_run (by rfl)).bind
  intro _
  apply (asks_run (by rfl)).bind
  intro _
  apply (asks_run (by rfl)).bind
  intro _
  exact ⟨rfl, fun _ => trivial⟩

theorem reset_keeps {parked : Option String} {steps : List Step}
    {result : Except Agent.ToolError (Option String)}
    (hplays : Plays objects.Does (reset parked) (some repo) steps result final) :
    ∃ last, final = some last ∧ last.refs.branches = repo.refs.branches := by
  apply hplays.keeps asks_reset _ ⟨repo, rfl, rfl⟩
  rintro state command outcome between hresets hdoes ⟨last, rfl, hbranches⟩
  obtain ⟨next, rfl, hnext⟩ := resets_keep hdoes hresets
  exact ⟨next, rfl, hnext.trans hbranches⟩

theorem reset_result {parked value : Option String} {start : Option Repository}
    {steps : List Step}
    (hplays : Plays objects.Does (reset parked) start steps (.ok value) final) :
    value = parked := by
  rcases plays_run_bind hplays with
    ⟨_, between, late, -, -, hclean, -⟩ | ⟨_, _, -, -, -, herror⟩
  swap
  · cases herror
  rcases plays_run_bind hclean with
    ⟨_, between, late, -, -, hwarm, -⟩ | ⟨_, _, -, -, -, herror⟩
  swap
  · cases herror
  rcases plays_run_bind hwarm with
    ⟨_, between, late, -, -, hrest, -⟩ | ⟨_, _, -, -, -, herror⟩
  · obtain ⟨reply, between, rest, -, hdone, -⟩ := plays_ask.1 hrest
    exact Except.ok.inj (plays_done.1 hdone).2.1
  · cases herror

/-- The branches that parking left are enough. -/
theorem Parked.preserved {parked : Option String} {last : Repository}
    {result : Except Agent.ToolError (Option String)}
    (hparked : Parked objects before (.ok parked) repo)
    (hbranches : last.refs.branches = repo.refs.branches)
    (hresult : ∀ value, result = .ok value → value = parked) :
    Preserved objects before result (some last) := by
  refine ⟨last, rfl, ?_, ?_⟩
  · intro commit hunpublished
    obtain ⟨name, tip, htip, hreaches⟩ :=
      hparked.commits parked rfl commit hunpublished
    exact .inl ⟨name, tip, by rw [hbranches, htip], hreaches⟩
  · intro path hchanged
    obtain ⟨name, hname, hrecovered, tip, htip, htree⟩ :=
      hparked.changes parked rfl path hchanged
    exact .inr ⟨name, hrecovered, ⟨tip, by rw [hbranches, htip], htree⟩,
      fun value hvalue => (hresult value hvalue).trans hname⟩

theorem ensureCloned_existing {destination : Destination} {steps : List Step}
    {result : Except Agent.ToolError Ensured}
    (hplays : Plays objects.Does (ensureCloned destination) (some before) steps
      result final)
    (hhealthy : ∀ step ∈ steps, step.command = .revParseGitDir →
      step.reply.Succeeded) : result = .ok .existing ∧ final = some before := by
  unfold ensureCloned isDir at hplays
  obtain ⟨outcome, between, rest, ⟨rfl, hpresent⟩, hrest, rfl⟩ := plays_ask.1 hplays
  obtain ⟨out, rfl, hexit⟩ := hpresent.2 rfl
  change Plays objects.Does (if (out.exitCode == 0) = true then _ else _) _ _ _ _
    at hrest
  rw [if_pos (beq_iff_eq.2 hexit)] at hrest
  rcases plays_bind.1 hrest with
    ⟨healthy, between, early, late, hattempt, hnext, rfl⟩ | ⟨error, hattempt, -⟩
  swap
  · obtain ⟨value, -, hvalue⟩ := plays_attempt.1 hattempt
    cases hvalue
  obtain ⟨value, hrun, hvalue⟩ := plays_attempt.1 hattempt
  cases hvalue
  obtain ⟨outcome, ⟨repo, rfl, rfl⟩, rfl, hend⟩ := plays_run hrun
  have hsucceeded := hhealthy ⟨some repo, .revParseGitDir, outcome, some repo⟩
    (by simp) rfl
  rcases hend with ⟨-, rfl⟩ | ⟨hstops, -⟩
  · obtain ⟨-, rfl, rfl⟩ := plays_done.1 hnext
    exact ⟨rfl, rfl⟩
  · exact absurd hsucceeded hstops

theorem prepareAt_preserves {destination : Destination} {epoch : ℕ} {steps : List Step}
    {result : Except Agent.ToolError (Option String)}
    (hplays : Plays objects.Does (prepareAt destination epoch) (some before) steps
      result final)
    (hhealthy : ∀ step ∈ steps, step.command = .revParseGitDir →
      step.reply.Succeeded)
    (hstatus : ∀ step ∈ steps, step.command = .status → ¬ Mute step.reply) :
    Preserved objects before result final := by
  unfold prepareAt at hplays
  rcases plays_bind.1 hplays with
    ⟨ensured, between, early, late, hensured, hrest, rfl⟩ | ⟨error, hensured, -⟩
  swap
  · cases (ensureCloned_existing hensured hhealthy).1
  have hearly : ∀ step ∈ early, step.command = .revParseGitDir →
      step.reply.Succeeded := fun step hstep =>
    hhealthy step (List.mem_append_left late hstep)
  obtain ⟨hexisting, rfl⟩ := ensureCloned_existing hensured hearly
  cases hexisting
  have hlate : ∀ step ∈ late, step.command = .status → ¬ Mute step.reply :=
    fun step hstep => hstatus step (List.mem_append_right early hstep)
  have hplayed : Plays objects.Does (parkLeftovers epoch >>= reset) (some before) late
      result final := hrest
  rcases plays_bind.1 hplayed with
    ⟨parked, between, parking, resetting, hparking, hreset, rfl⟩ | ⟨error, hparking, rfl⟩
  · obtain ⟨repo, rfl, hparked⟩ := parkLeftovers_parks hparking fun step hstep =>
      hlate step (List.mem_append_left resetting hstep)
    obtain ⟨last, rfl, hbranches⟩ := reset_keeps hreset
    apply hparked.preserved hbranches
    rintro value rfl
    exact reset_result hreset
  · obtain ⟨repo, rfl, hparked⟩ := parkLeftovers_parks hparking hlate
    exact ⟨repo, rfl, fun commit hunpublished =>
      .inr ⟨⟨error, rfl⟩, hparked.head commit hunpublished.1⟩,
      fun path _ => .inl (congrFun hparked.worktree path)⟩

end Reset

/-! ### A commit on a detached HEAD -/

/-- Commits without ancestors but for `p`; it holds one file. -/
def smallObjects : Objects where
  tree := fun commit path => if commit = "p" ∧ path = ["a"] then some "v" else none
  Reaches := fun first second => first = second ∨ first = "p"
  refl := fun _ => .inl rfl
  trans := by
    rintro first second third (rfl | rfl) hsecond
    · exact hsecond
    · exact .inr rfl
  ignored := fun _ => false

/-- A commit of its own under HEAD, and a new file. -/
def stranded : Repository where
  refs := ⟨fun _ => none, .detached "c"⟩
  base := some "b"
  index := fun _ => none
  worktree := fun path => if path = ["a"] then some "v" else none

def destination : Destination where
  url := "https://github.com/o/r.git"
  rel := "projects/o/r"
  dir := "/workspace/projects/o/r"
  hasParent := true

/-- The first commands on a checkout that is there. -/
def readySteps (status : Tools.Outcome) : List Step :=
  [⟨some stranded, .isDir, exited 0 "", some stranded⟩,
    ⟨some stranded, .revParseGitDir, exited 0 ".git\n", some stranded⟩,
    ⟨some stranded, .status, status, some stranded⟩]

theorem stranded_dirty : smallObjects.Dirty stranded := by
  refine ⟨["a"], rfl, .inr ⟨?_, fun hleft => ?_⟩⟩
  · simp [stranded]
  · cases hleft.2

theorem readySteps_carried {status : Tools.Outcome}
    (hstatus : status.Succeeded → ¬ status.Says "") :
    ∀ step ∈ readySteps status,
      smallObjects.Does step.before step.command step.reply step.after := by
  have hdir : smallObjects.Does (some stranded) .isDir (exited 0 "") (some stranded) :=
    ⟨rfl, fun _ => rfl, fun _ => ⟨_, rfl, rfl⟩⟩
  have hparse : smallObjects.Does (some stranded) .revParseGitDir (exited 0 ".git\n")
      (some stranded) := ⟨stranded, rfl, rfl⟩
  have hlisted : smallObjects.Does (some stranded) .status status (some stranded) := by
    refine ⟨stranded, rfl, rfl, fun hsucceeded => ?_⟩
    exact iff_of_false (hstatus hsucceeded) (not_not.2 stranded_dirty)
  simp only [readySteps, List.forall_mem_cons]
  exact ⟨hdir, hparse, hlisted, by simp⟩

/-- A call that fails before the branch leaves the commit where it was. -/
theorem stranded_unbranched :
    ∃ steps error, Plays smallObjects.Does (prepareAt destination 7)
        (some stranded) steps (.error error) (some stranded) ∧
      Unpublished smallObjects stranded "c" ∧
        ¬ OnBranch smallObjects stranded "c" := by
  have hreplay : replay (prepareAt destination 7) (some stranded)
      ((readySteps (.error (.timeout "git status" 120 ⟨"", ""⟩))).map
        fun step => (step.reply, step.after)) =
          some (readySteps _, .error _, some stranded) := rfl
  refine ⟨_, _, plays_of_replay hreplay (readySteps_carried ?_), ?_, ?_⟩
  · rintro ⟨out, hout, -⟩
    cases hout
  · refine ⟨⟨"c", rfl, .inl rfl⟩, ?_⟩
    rintro base hbase (hreaches | hreaches)
    · cases hbase
      exact absurd hreaches (by decide)
    · cases hbase
      exact absurd hreaches (by decide)
  · rintro ⟨name, tip, htip, -⟩
    cases htip

/-- The checkout on its recovered branch, and with everything staged on it. -/
def branched : Repository := stranded.switched "kitaebot_recovered/7"

def staged : Repository := { branched with index := stranded.worktree }

def parkedRepo : Repository := { staged with refs := staged.refs.setTip "p" }

def swept : Repository where
  refs := { parkedRepo.refs with head := .detached "b" }
  base := some "b"
  index := fun _ => none
  worktree := fun _ => none

def parkedSteps : List Step :=
  readySteps (exited 0 "?? a\n") ++
    [⟨some stranded, .symbolicRef, exited 1 "", some stranded⟩,
      ⟨some stranded, .isAncestor, exited 1 "", some stranded⟩,
      ⟨some stranded, .branch "kitaebot_recovered/7", exited 0 "", some branched⟩,
      ⟨some branched, .addAll, exited 0 "", some staged⟩,
      ⟨some staged, .resetCaches, exited 0 "", some staged⟩,
      ⟨some staged, .commit, exited 0 "", some parkedRepo⟩,
      ⟨some parkedRepo, .fetch, exited 0 "", some parkedRepo⟩,
      ⟨some parkedRepo, .checkoutBase, exited 0 "", some swept⟩,
      ⟨some swept, .clean, exited 0 "", some swept⟩,
      ⟨some swept, .warmDevshell, exited 0 "", some swept⟩]

theorem exited_succeeds (stdout : String) : (exited 0 stdout).Succeeded :=
  ⟨_, rfl, rfl⟩

theorem exited_fails : ¬ (exited 1 "").Succeeded :=
  Tools.Outcome.Failed.not_succeeded ⟨_, rfl, one_ne_zero⟩

theorem parkedSteps_carried : ∀ step ∈ parkedSteps,
    smallObjects.Does step.before step.command step.reply step.after := by
  have hlisted : ¬ (exited 0 "?? a\n").Says "" := by
    rintro ⟨out, hout, -, htext⟩
    cases hout
    exact absurd htext (by decide)
  have hready := readySteps_carried fun _ => hlisted
  have htree : smallObjects.tree "p" = staged.index := by
    funext path
    simp [smallObjects, staged, stranded]
  have hadded : ∀ path, (smallObjects.LeftOut branched path →
        staged.index path = none) ∧
      (¬ smallObjects.LeftOut branched path →
        staged.index path = branched.worktree path) := by
    intro path
    exact ⟨fun hleft => absurd hleft.2 (by simp [smallObjects]), fun _ => rfl⟩
  have hkept : ∀ path, kept path = true →
      staged.index path = smallObjects.headTree staged path := by
    intro path hkept
    have hpath : path ≠ ["a"] := by
      rintro rfl
      cases hkept
    have hcommitted : smallObjects.headTree staged path = none := by
      rw [Objects.headTree]
      split
      · simp [smallObjects, hpath]
      · rfl
    rw [hcommitted]
    simp [staged, stranded, hpath]
  have hbase : ∀ path, smallObjects.tree "b" path = none := by
    simp [smallObjects]
  have hswept : ∀ path, swept.worktree path =
      if parkedRepo.index path = none ∧ smallObjects.tree "b" path = none then
        parkedRepo.worktree path
      else smallObjects.tree "b" path := by
    intro path
    rw [hbase path]
    split
    next hnone => exact hnone.1.symm
    next => rfl
  rw [parkedSteps, List.forall_mem_append]
  simp only [List.forall_mem_cons]
  refine ⟨hready, ⟨stranded, rfl, rfl, fun hexit => absurd hexit exited_fails⟩,
    ⟨stranded, rfl, rfl, fun hexit => absurd hexit exited_fails⟩,
    ⟨branched, rfl, .inl ⟨exited_succeeds "", rfl, rfl⟩⟩,
    ⟨staged, rfl, staged.index, rfl, fun _ => hadded⟩,
    ⟨staged, rfl, staged.index, rfl, fun _ _ => rfl, fun _ => hkept⟩,
    ⟨parkedRepo, rfl, .inl ⟨exited_succeeds "", "p", fun _ _ => .inr rfl, htree, rfl⟩⟩,
    ⟨parkedRepo, rfl, some "b", rfl⟩,
    ⟨swept, rfl, rfl, rfl, fun _ => ⟨"b", rfl, rfl, (funext hbase).symm, hswept⟩⟩,
    ⟨swept, rfl, fun _ => none, rfl, fun _ => .inl rfl, fun _ _ _ _ => rfl⟩,
    ⟨swept, rfl, rfl⟩, by simp⟩

theorem stranded_parked :
    ∃ steps, Plays smallObjects.Does (prepareAt destination 7) (some stranded) steps
        (.ok (some "kitaebot_recovered/7")) (some swept) ∧
      Preserved smallObjects stranded (.ok (some "kitaebot_recovered/7"))
        (some swept) := by
  have hreplay : replay (prepareAt destination 7) (some stranded)
      (parkedSteps.map fun step => (step.reply, step.after)) =
        some (parkedSteps, .ok (some "kitaebot_recovered/7"), some swept) := rfl
  have hplays := plays_of_replay hreplay parkedSteps_carried
  refine ⟨_, hplays, prepareAt_preserves hplays ?_ ?_⟩
  · simp [parkedSteps, readySteps, exited_succeeds]
  · simp [parkedSteps, readySteps, Mute, exited]

end Kitaebot.Channel.ExecutionCheckout
