import Kitaebot.Tools.Fixup

/-!
# What a failed fixup leaves behind

A call that fails before the fixup commit has changed nothing.  After it, only
the two ends that go through `restore` put the branch and the index back; every
other failing return leaves the fixup commit, a rebase in progress or the
rewritten branch behind.
-/

namespace Kitaebot.Tools.Fixup

open Agent Dialogue

abbrev Step := Exchange Checkout Command Outcome

/-- The branch is where it was, no rebase is in progress, and the same changes
are staged. -/
structure Restored (before after : Checkout) : Prop where
  refs : after.refs = before.refs
  idle : after.rebase = none
  index : after.index = before.index

/-- The final push was rejected. -/
def PushRejected (steps : List Step) : Prop :=
  ∃ step ∈ steps, (∃ branch, step.command = .push branch) ∧ step.reply.Failed

def Command.restores : Command → Bool
  | .rebaseAbort | .resetHard _ | .resetSoft => true
  | _ => false

/-- The restore commands did what they are for; with no rebase in progress there
is nothing to abort. -/
def RestoreSucceeds (steps : List Step) : Prop :=
  ∀ step ∈ steps, step.command.restores = true →
    step.reply.Succeeded ∨
      step.command = .rebaseAbort ∧ step.before.rebase = none

/-- A rebase was in progress at the call, with the branch checked out that it
returns to, and the autosquash was refused because of it. -/
def Reclaimed (before : Checkout) (steps : List Step) : Prop :=
  (∃ paused, before.rebase = some paused ∧
      paused.headName = before.refs.head.branch?) ∧
    ∃ step ∈ steps, (∃ upstream, step.command = .autosquash upstream) ∧
      step.reply.Failed

/-- The failures that the call can take back. -/
structure Recoverable (before : Checkout) (steps : List Step) : Prop where
  idle : before.rebase = none ∨ Reclaimed before steps
  commit : ∀ step ∈ steps, (∃ target, step.command = .commitFixup target) →
    step.reply.CutOff → step.after = step.before
  resolve : ∀ step ∈ steps,
    step.command = .revParseHead ∨ step.command = .revParseTree →
      step.reply.Succeeded
  autosquash : ∀ step ∈ steps,
    (∃ upstream, step.command = .autosquash upstream) → ¬ step.reply.CutOff
  push : ∀ step ∈ steps,
    (∃ branch, step.command = .push branch) → ¬ step.reply.CutOff

/-! ### Where the tip cannot be -/

section Objects

variable {objects : Objects} {before between after : Checkout}

theorem Objects.Committed.tip_ne {fixup : String}
    (hcommitted : objects.Committed before fixup after) :
    before.refs.tip ≠ some fixup := by
  intro htip
  apply hcommitted.2.2.1
  rw [Objects.tipTree, htip, ← hcommitted.2.1]

theorem Objects.Committed.tip_eq {fixup : String}
    (hcommitted : objects.Committed before fixup after) :
    after.refs.tip = some fixup := by
  rw [hcommitted.2.2.2, Refs.tip_setTip]

theorem Objects.Does.committed {target : String} {outcome : Outcome}
    (hdoes : objects.Does before (.commitFixup target) outcome after)
    (hsucceeded : outcome.Succeeded) :
    ∃ fixup, objects.Committed before fixup after := by
  rcases hdoes with ⟨-, hcommitted⟩ | ⟨hfailed, -⟩ | ⟨hcut, -⟩
  · exact hcommitted
  · exact absurd hsucceeded hfailed.not_succeeded
  · exact absurd hsucceeded hcut.not_succeeded

theorem Objects.Does.rebased {upstream : String} {outcome : Outcome}
    (hdoes : objects.Does before (.autosquash upstream) outcome after)
    (hsucceeded : outcome.Succeeded) : objects.Rebased before after := by
  rcases hdoes with ⟨-, -, hrebased⟩ | ⟨hstops, -⟩
  · exact hrebased
  · exact absurd hsucceeded hstops

/-- With the fixup commit on the branch nothing is restored. -/
theorem Objects.Committed.not_restored {fixup : String}
    (hcommitted : objects.Committed before fixup after) :
    ¬ Restored before after := by
  intro hrestored
  apply hcommitted.tip_ne
  rw [← hrestored.refs]
  exact hcommitted.tip_eq

/-- Nor with the rewritten branch: its index holds nothing staged. -/
theorem Objects.Rebased.not_restored {fixup : String}
    (hcommitted : objects.Committed before fixup between)
    (hrebased : objects.Rebased between after) : ¬ Restored before after := by
  intro hrestored
  obtain ⟨commit, rfl⟩ := hrebased
  apply hcommitted.2.2.1
  have htip : before.refs.tip = some commit := by
    rw [← hrestored.refs]
    exact Refs.tip_setTip
  rw [Objects.tipTree, htip, ← hrestored.index]

/-! ### The rollback -/

/-- What aborting leaves: the checkout the rebase started from, or the same. -/
def Aborted (objects : Objects) (before after : Checkout) : Prop :=
  match before.rebase with
  | none => after = before
  | some paused => after =
      { refs := before.refs.attach paused.headName paused.origHead
        rebase := none
        index := objects.tree paused.origHead }

theorem asks_restore {fixup : String} :
    (restore fixup).Asks (fun command => command.restores = true) :=
  ⟨rfl, fun _ => ⟨rfl, fun _ => ⟨rfl, fun _ => trivial⟩⟩⟩

theorem plays_restore {fixup : String} {steps : List Step}
    {result : Except Agent.ToolError Unit}
    (hplays : Plays objects.Does (restore fixup) before steps result after)
    (hsucceeds : RestoreSucceeds steps) :
    ∃ aborted parent, Aborted objects before aborted ∧
      objects.parent fixup = some parent ∧ after =
        { aborted with
          refs := (aborted.refs.setTip fixup).setTip parent
          index := objects.tree fixup } := by
  obtain ⟨first, aborted, rest, habort, hreset, rfl⟩ := plays_ask.1 hplays
  obtain ⟨second, hard, rest, hhard, hdrop, rfl⟩ := plays_ask.1 hreset
  obtain ⟨third, soft, rest, hsoft, hdone, rfl⟩ := plays_ask.1 hdrop
  obtain ⟨rfl, -, rfl⟩ := plays_done.1 hdone
  have hfirst := hsucceeds ⟨before, .rebaseAbort, first, aborted⟩ (by simp) rfl
  have hsecond := hsucceeds ⟨aborted, .resetHard fixup, second, hard⟩ (by simp) rfl
  have hthird := hsucceeds ⟨hard, .resetSoft, third, after⟩ (by simp) rfl
  have hhardened : hard = { aborted with
      refs := aborted.refs.setTip fixup, index := objects.tree fixup } := by
    rcases hsecond with hsecond | ⟨heq, -⟩
    · exact hhard hsecond
    · cases heq
  subst hhardened
  rcases hthird with hthird | ⟨heq, -⟩
  · obtain ⟨commit, parent, htip, hparent, rfl⟩ := hsoft hthird
    have hcommit : fixup = commit := by
      rw [Refs.tip_setTip] at htip
      exact Option.some.inj htip
    subst hcommit
    refine ⟨aborted, parent, ?_, hparent, rfl⟩
    rw [Aborted]
    change (match before.rebase with
      | none => ¬ first.Succeeded ∧ aborted = before
      | some paused => first.Succeeded → aborted =
          { refs := before.refs.attach paused.headName paused.origHead
            rebase := none
            index := objects.tree paused.origHead }) at habort
    cases hrebase : before.rebase with
    | none =>
        rw [hrebase] at habort
        exact habort.2
    | some paused =>
        rw [hrebase] at habort
        rcases hfirst with hfirst | ⟨-, hnone⟩
        · exact habort hfirst
        · rw [hrebase] at hnone
          cases hnone
  · cases heq

/-- What the rollback makes of a checkout whose abort leads back to the branch. -/
theorem restored_of_aborted {fixup parent : String} {committed aborted : Checkout}
    (hcommitted : objects.Committed before fixup committed)
    (hparent : objects.parent fixup = some parent)
    (hsame : Refs.SameBut before.refs aborted.refs) (hidle : aborted.rebase = none) :
    Restored before
      { aborted with
        refs := (aborted.refs.setTip fixup).setTip parent
        index := objects.tree fixup } where
  refs := (hsame.trans (.setTip aborted.refs fixup)).setTip_back
    (hcommitted.1.symm.trans hparent)
  idle := hidle
  index := hcommitted.2.1

/-! ### How a call fails -/

/-- These commands ran and exited with success. -/
def Passed (steps : List Step) : Prop :=
  ∀ step ∈ steps, step.reply.Succeeded

/-- Where a call from the fixup commit on fails, unless its push is rejected. -/
inductive Ending (objects : Objects) (before : Checkout) :
    List Step → Checkout → Prop
  | committing {target : String} {outcome : Outcome} {after : Checkout}
      (carried : objects.Does before (.commitFixup target) outcome after)
      (stops : ¬ outcome.Succeeded) :
      Ending objects before [⟨before, .commitFixup target, outcome, after⟩] after
  | resolving {fixup : String} {early : List Step} {last : Step} {after : Checkout}
      (committed : objects.Committed before fixup after) (passed : Passed early)
      (command : last.command = .revParseHead ∨ last.command = .revParseTree)
      (stops : ¬ last.reply.Succeeded) :
      Ending objects before (early ++ [last]) after
  | squashing {fixup upstream : String} {early : List Step} {outcome : Outcome}
      {between after : Checkout}
      (committed : objects.Committed before fixup between) (passed : Passed early)
      (carried : objects.Does between (.autosquash upstream) outcome after)
      (stops : outcome.CutOff) :
      Ending objects before
        (early ++ [⟨between, .autosquash upstream, outcome, after⟩]) after
  | squashed {fixup : String} {early : List Step} {last : Step}
      {between after : Checkout}
      (committed : objects.Committed before fixup between)
      (rebased : objects.Rebased between after) (passed : Passed early)
      (stops : last.command = .revParseTree ∧ ¬ last.reply.Succeeded ∨
        (∃ branch, last.command = .push branch) ∧ last.reply.CutOff) :
      Ending objects before (early ++ [last]) after
  | restoring {fixup upstream : String} {early middle late : List Step}
      {outcome : Outcome} {between stopped after : Checkout}
      (committed : objects.Committed before fixup between)
      (passed : Passed (early ++ middle))
      (carried : objects.Does between (.autosquash upstream) outcome stopped)
      (runs : ¬ outcome.CutOff)
      (restores : Plays objects.Does (restore fixup) stopped late (.ok ()) after) :
      Ending objects before
        (early ++ ⟨between, .autosquash upstream, outcome, stopped⟩ ::
          (middle ++ late)) after

/-- The restore, and the error after it. -/
theorem plays_restore_fail {fixup : String} {error : Agent.ToolError}
    {steps : List Step} {result : Except Agent.ToolError String}
    (hplays : Plays objects.Does (restore fixup >>= fun _ => .fail error) before
      steps result after) :
    Plays objects.Does (restore fixup) before steps (.ok ()) after := by
  rcases plays_bind.1 hplays with
    ⟨value, between, early, late, hrestore, hfail, rfl⟩ | ⟨other, hrestore, -⟩
  · obtain ⟨rfl, -, rfl⟩ := plays_fail.1 hfail
    rw [List.append_nil]
    exact hrestore
  · obtain ⟨_, _, rest, -, hreset, rfl⟩ := plays_ask.1 hrestore
    obtain ⟨_, _, rest, -, hdrop, rfl⟩ := plays_ask.1 hreset
    obtain ⟨_, _, rest, -, hdone, rfl⟩ := plays_ask.1 hdrop
    cases (plays_done.1 hdone).2.1

theorem plays_restore_error {fixup : String} {error : Agent.ToolError}
    {steps : List Step} {result : Except Agent.ToolError String}
    (hplays : Plays objects.Does (restore fixup >>= fun _ => .fail error) before
      steps result after) : ∃ other, result = .error other := by
  rcases plays_bind.1 hplays with
    ⟨value, between, early, late, -, hfail, -⟩ | ⟨other, -, hresult⟩
  · exact ⟨error, (plays_fail.1 hfail).2.1⟩
  · exact ⟨other, hresult⟩

theorem meld_ending {branch targetSha subject : String} {steps : List Step}
    {error : Agent.ToolError}
    (hplays : Plays objects.Does (meld branch targetSha subject) before steps
      (.error error) after) (hpush : ¬ PushRejected steps) :
    Ending objects before steps after := by
  unfold meld at hplays
  rcases plays_git_bind.1 hplays with
    ⟨commit, s1, late, hcommit, hplays1, rfl⟩ | ⟨cut, hcommit, rfl, -⟩
  swap
  · exact .committing hcommit (Outcome.CutOff.not_succeeded ⟨cut, rfl⟩)
  rcases plays_failIf_bind.1 hplays1 with ⟨hexit, hplays2⟩ | ⟨hexit, rfl, -, rfl⟩
  swap
  · exact .committing hcommit (Outcome.Failed.not_succeeded ⟨commit, rfl, hexit⟩)
  have hpassed : Outcome.Succeeded (.ok commit) := ⟨commit, rfl, not_not.1 hexit⟩
  obtain ⟨fixup, hcommitted⟩ := hcommit.committed hpassed
  rcases plays_gitOk_bind hplays2 with
    ⟨head, headOutcome, s2, late, hhead, hread, hplays3, rfl⟩ |
      ⟨outcome, cut, hstops, hread, rfl, -⟩
  swap
  · obtain ⟨rfl, -⟩ := hread
    change Ending _ _ ([_] ++ [_]) _
    exact .resolving hcommitted (by simpa [Passed] using hpassed)
      (.inl rfl) hstops
  obtain ⟨rfl, hspoken⟩ := hread
  have hfixup : head = fixup := by
    have htip := hspoken head hhead
    rw [hcommitted.tip_eq] at htip
    exact (Option.some.inj htip).symm
  subst hfixup
  rcases plays_gitOk_bind hplays3 with
    ⟨tree, treeOutcome, s3, late, htree, hread, hplays4, rfl⟩ |
      ⟨outcome, cut, hstops, hread, rfl, -⟩
  swap
  · obtain ⟨rfl, -⟩ := hread
    change Ending _ _ ([_, _] ++ [_]) _
    exact .resolving hcommitted
      (by simpa [Passed] using ⟨hpassed, hhead.succeeded⟩) (.inr rfl) hstops
  obtain ⟨rfl, -⟩ := hread
  rcases plays_git_bind.1 hplays4 with
    ⟨rebase, stopped, late, hrebase, hplays5, rfl⟩ | ⟨cut, hrebase, rfl, -⟩
  swap
  · change Ending _ _ ([_, _, _] ++ [_]) _
    exact .squashing hcommitted
      (by simpa [Passed] using ⟨hpassed, hhead.succeeded, htree.succeeded⟩) hrebase
      ⟨cut, rfl⟩
  have hruns : ¬ Outcome.CutOff (.ok rebase) := by
    rintro ⟨cut, hcut⟩
    cases hcut
  split at hplays5
  · change Ending _ _ ([_, _, _] ++ _ :: ([] ++ _)) _
    exact .restoring hcommitted
      (by simpa [Passed] using ⟨hpassed, hhead.succeeded, htree.succeeded⟩) hrebase
      hruns (plays_restore_fail hplays5)
  next hexit =>
  have hsquashed : Outcome.Succeeded (.ok rebase) := ⟨rebase, rfl, not_not.1 hexit⟩
  have hrebased := hrebase.rebased hsquashed
  rcases plays_gitOk_bind hplays5 with
    ⟨tree', treeOutcome', s5, late, htree', hread, hplays6, rfl⟩ |
      ⟨outcome, cut, hstops, hread, rfl, -⟩
  swap
  · obtain ⟨rfl, -⟩ := hread
    change Ending _ _ ([_, _, _, _] ++ [_]) _
    exact .squashed hcommitted hrebased
      (by simpa [Passed] using
        ⟨hpassed, hhead.succeeded, htree.succeeded, hsquashed⟩)
      (.inl ⟨rfl, hstops⟩)
  obtain ⟨rfl, -⟩ := hread
  split at hplays6
  · change Ending _ _ ([_, _, _] ++ _ :: ([_] ++ _)) _
    exact .restoring hcommitted
      (by simpa [Passed] using
        ⟨hpassed, hhead.succeeded, htree.succeeded, htree'.succeeded⟩) hrebase hruns
      (plays_restore_fail hplays6)
  rcases plays_git_bind.1 hplays6 with
    ⟨push, pushed, late, hdoes, hplays7, rfl⟩ | ⟨cut, hdoes, rfl, -⟩
  · rcases plays_failIf_bind.1 hplays7 with ⟨-, hdone⟩ | ⟨hexit, rfl, -, rfl⟩
    · cases (plays_done.1 hdone).2.1
    · exact absurd hexit (by simpa [PushRejected, Outcome.Failed] using hpush)
  · obtain rfl : _ = _ := hdoes
    change Ending _ _ ([_, _, _, _, _] ++ [_]) _
    exact .squashed hcommitted hrebased
      (by simpa [Passed] using
        ⟨hpassed, hhead.succeeded, htree.succeeded, hsquashed, htree'.succeeded⟩)
      (.inr ⟨⟨branch, rfl⟩, cut, rfl⟩)

/-! ### Which failures are taken back -/

/-- Aborting what the autosquash left leads back to the branch. -/
theorem aborted_sameBut {upstream : String} {outcome : Outcome}
    {stopped aborted : Checkout} (hidle : between.rebase = none)
    (hdoes : objects.Does between (.autosquash upstream) outcome stopped)
    (haborted : Aborted objects stopped aborted) :
    Refs.SameBut between.refs aborted.refs ∧ aborted.rebase = none := by
  have hstopped : stopped = between ∨ objects.Rebased between stopped ∨
      Objects.Interrupted between stopped := by
    rcases hdoes with ⟨-, -, hrebased⟩ | ⟨-, hsame | ⟨-, hrest⟩⟩
    · exact .inr (.inl hrebased)
    · exact .inl hsame
    · exact .inr hrest
  rw [Aborted] at haborted
  rcases hstopped with rfl | ⟨commit, rfl⟩ | ⟨⟨commit, -, hpaused⟩, hbranches⟩
  · rw [hidle] at haborted
    subst haborted
    exact ⟨.refl _, hidle⟩
  · simp only [hidle] at haborted
    subst haborted
    exact ⟨.setTip between.refs commit, rfl⟩
  · rw [hpaused] at haborted
    subst haborted
    exact ⟨.attach hbranches, rfl⟩

/-- The rollback restores, unless it aborted a rebase that was in progress before
and returns to another branch. -/
theorem restoring_iff {fixup upstream : String} {outcome : Outcome}
    {stopped : Checkout} {late : List Step}
    (hcommitted : objects.Committed before fixup between)
    (hdoes : objects.Does between (.autosquash upstream) outcome stopped)
    (hrestore : Plays objects.Does (restore fixup) stopped late (.ok ()) after)
    (hsucceeds : RestoreSucceeds late) :
    Restored before after ↔ before.rebase = none ∨
      ¬ outcome.Succeeded ∧ ∃ paused, before.rebase = some paused ∧
        paused.headName = before.refs.head.branch? := by
  obtain ⟨aborted, parent, haborted, hparent, rfl⟩ := plays_restore hrestore hsucceeds
  have hbetween := hcommitted.2.2.2
  have hset : Refs.SameBut before.refs between.refs := by
    rw [hbetween]
    exact .setTip before.refs fixup
  have hkept : between.rebase = before.rebase := by
    rw [hbetween]
  cases hrebase : before.rebase with
  | none =>
      have hsame := aborted_sameBut (hkept.trans hrebase) hdoes haborted
      have hrestored := restored_of_aborted hcommitted hparent
        (hset.trans hsame.1) hsame.2
      exact ⟨fun _ => .inl rfl, fun _ => hrestored⟩
  | some paused =>
      have hbusy : between.rebase ≠ none := by
        rw [hkept, hrebase]
        exact Option.some_ne_none paused
      have hrefused : ¬ outcome.Succeeded ∧ stopped = between := by
        rcases hdoes with ⟨-, hnone, -⟩ | ⟨hstops, hsame | ⟨hnone, -⟩⟩
        · exact absurd hnone hbusy
        · exact ⟨hstops, hsame⟩
        · exact absurd hnone hbusy
      obtain ⟨hstops, rfl⟩ := hrefused
      rw [Aborted, hkept, hrebase] at haborted
      subst haborted
      constructor
      · intro hrestored
        refine .inr ⟨hstops, paused, rfl, ?_⟩
        rw [← hrestored.refs]
        simp
      · rintro (hnone | ⟨-, other, hother, hname⟩)
        · cases hnone
        · cases hother
          apply restored_of_aborted hcommitted hparent
          · rw [hname]
            exact .attach hset.branches
          · rfl

theorem Ending.restored_iff {steps : List Step} (hending : Ending objects before steps after)
    (hsucceeds : RestoreSucceeds steps) :
    Restored before after ↔ Recoverable before steps := by
  cases hending with
  | committing carried stops =>
      constructor
      · intro hrestored
        have hafter : after = before := by
          rcases carried with ⟨hsucceeded, -⟩ | ⟨-, hsame⟩ | ⟨-, hsame | ⟨fixup, hcommitted⟩⟩
          · exact absurd hsucceeded stops
          · exact hsame
          · exact hsame
          · exact absurd hrestored hcommitted.not_restored
        constructor
        · exact .inl (hafter ▸ hrestored.idle)
        · simp [hafter]
        · simp
        · simp
        · simp
      · intro hrecoverable
        have hafter : after = before := by
          rcases carried with ⟨hsucceeded, -⟩ | ⟨-, hsame⟩ | ⟨hcut, -⟩
          · exact absurd hsucceeded stops
          · exact hsame
          · exact hrecoverable.commit _ (List.mem_singleton_self _) ⟨_, rfl⟩ hcut
        have hidle : before.rebase = none := by
          rcases hrecoverable.idle with hnone | ⟨-, step, hmem, ⟨upstream, heq⟩, -⟩
          · exact hnone
          · rw [List.mem_singleton.1 hmem] at heq
            cases heq
        subst hafter
        exact ⟨rfl, hidle, rfl⟩
  | resolving committed passed command stops =>
      constructor
      · intro hrestored
        exact absurd hrestored committed.not_restored
      · intro hrecoverable
        exact absurd (hrecoverable.resolve _ (by simp) command) stops
  | squashing committed passed carried stops =>
      constructor
      · intro hrestored
        rcases carried with ⟨hsucceeded, -⟩ | ⟨-, rfl | ⟨-, hrebased | hstopped⟩⟩
        · exact absurd hsucceeded stops.not_succeeded
        · exact absurd hrestored committed.not_restored
        · exact absurd hrestored (Objects.Rebased.not_restored committed hrebased)
        · obtain ⟨⟨commit, -, hpaused⟩, -⟩ := hstopped
          rw [hrestored.idle] at hpaused
          cases hpaused
      · intro hrecoverable
        exact absurd stops
          (hrecoverable.autosquash _ (List.mem_concat_self) ⟨_, rfl⟩)
  | squashed committed rebased passed stops =>
      constructor
      · intro hrestored
        exact absurd hrestored (Objects.Rebased.not_restored committed rebased)
      · intro hrecoverable
        rcases stops with ⟨hcommand, hstops⟩ | ⟨hcommand, hcut⟩
        · exact absurd (hrecoverable.resolve _ (by simp) (.inr hcommand)) hstops
        · exact absurd hcut (hrecoverable.push _ (by simp) hcommand)
  | @restoring fixup upstream early middle late outcome between stopped _ committed
      passed carried runs restores =>
      have hlate : RestoreSucceeds late := fun step hmem hrestores =>
        hsucceeds step (by simp [hmem]) hrestores
      have hrestores := restores.asked asks_restore
      have hsteps : ∀ step ∈ early ++ ⟨between, .autosquash upstream, outcome, stopped⟩ ::
          (middle ++ late), step.command.restores = false →
            step.reply.Succeeded ∨
              step = ⟨between, .autosquash upstream, outcome, stopped⟩ := by
        intro step hmem hplain
        simp only [List.mem_append, List.mem_cons] at hmem
        rcases hmem with hmem | rfl | hmem | hmem
        · exact .inl (passed step (by simp [hmem]))
        · exact .inr rfl
        · exact .inl (passed step (by simp [hmem]))
        · rw [hrestores step hmem] at hplain
          cases hplain
      have hidle : (before.rebase = none ∨ Reclaimed before
          (early ++ ⟨between, .autosquash upstream, outcome, stopped⟩ ::
            (middle ++ late))) ↔ before.rebase = none ∨ ¬ outcome.Succeeded ∧
              ∃ paused, before.rebase = some paused ∧
                paused.headName = before.refs.head.branch? := by
        apply or_congr Iff.rfl
        constructor
        · rintro ⟨hpaused, step, hmem, ⟨other, hcommand⟩, hfailed⟩
          refine ⟨?_, hpaused⟩
          rcases hsteps step hmem (by rw [hcommand]; rfl) with hsucceeded | rfl
          · exact absurd hfailed hsucceeded.not_failed
          · exact hfailed.not_succeeded
        · rintro ⟨hstops, hpaused⟩
          have hfailed : outcome.Failed :=
            (outcome.cases.resolve_left hstops).resolve_right runs
          exact ⟨hpaused, _, List.mem_append_right early (List.mem_cons_self ..),
            ⟨upstream, rfl⟩, hfailed⟩
      rw [restoring_iff committed carried restores hlate, ← hidle]
      constructor
      · intro hrebase
        refine ⟨hrebase, ?_, ?_, ?_, ?_⟩
        · rintro step hmem ⟨target, hcommand⟩ hcut
          rcases hsteps step hmem (by rw [hcommand]; rfl) with hsucceeded | rfl
          · exact absurd hcut hsucceeded.not_cutOff
          · cases hcommand
        · rintro step hmem hcommand
          have hplain : step.command.restores = false := by
            rcases hcommand with hcommand | hcommand
            · rw [hcommand]
              rfl
            · rw [hcommand]
              rfl
          rcases hsteps step hmem hplain with hsucceeded | rfl
          · exact hsucceeded
          · rcases hcommand with hcommand | hcommand
            · cases hcommand
            · cases hcommand
        · rintro step hmem ⟨other, hcommand⟩ hcut
          rcases hsteps step hmem (by rw [hcommand]; rfl) with hsucceeded | rfl
          · exact hsucceeded.not_cutOff hcut
          · exact runs hcut
        · rintro step hmem ⟨branch, hcommand⟩ hcut
          rcases hsteps step hmem (by rw [hcommand]; rfl) with hsucceeded | rfl
          · exact hsucceeded.not_cutOff hcut
          · cases hcommand
      · exact Recoverable.idle

/-! ### The call -/

def Command.queries : Command → Bool
  | .diffCached | .diff | .abbrevRef | .log _ | .isAncestor _ _ => true
  | _ => false

theorem Objects.Does.eq_of_queries {command : Command} {outcome : Outcome}
    (hdoes : objects.Does before command outcome after)
    (hqueries : command.queries = true) : after = before := by
  cases command with
  | diffCached => exact hdoes.1
  | diff => exact hdoes
  | abbrevRef => exact hdoes.1
  | log target => exact hdoes
  | isAncestor commit of => exact hdoes
  | _ => cases hqueries

theorem asks_preflight {target : String} :
    (preflight target).Asks (fun command => command.queries = true) := by
  unfold preflight
  apply asks_git_bind (by rfl)
  intro staged
  apply Asks.failIf_bind
  apply asks_git_bind (by rfl)
  intro unstaged
  apply Asks.failIf_bind
  apply asks_gitOk_bind (by rfl)
  intro branch
  apply Asks.failIf_bind
  apply asks_gitOk_bind (by rfl)
  intro line
  apply asks_git_bind (by rfl)
  intro onBranch
  apply Asks.failIf_bind
  apply asks_git_bind (by rfl)
  intro onBase
  exact Asks.failIf_bind trivial

/-- Queries before the fixup commit do not matter. -/
theorem Recoverable.append_iff {early late : List Step}
    (hearly : ∀ step ∈ early, step.command.queries = true) :
    Recoverable before (early ++ late) ↔ Recoverable before late := by
  have hlate : ∀ step ∈ early ++ late, step.command.queries = false →
      step ∈ late := by
    intro step hmem hplain
    rcases List.mem_append.1 hmem with hmem | hmem
    · rw [hearly step hmem] at hplain
      cases hplain
    · exact hmem
  have hmem : ∀ step ∈ late, step ∈ early ++ late := fun step =>
    List.mem_append_right early
  constructor
  · intro hall
    refine ⟨hall.idle.imp_right ?_, fun step hstep => hall.commit step (hmem step hstep),
      fun step hstep => hall.resolve step (hmem step hstep),
      fun step hstep => hall.autosquash step (hmem step hstep),
      fun step hstep => hall.push step (hmem step hstep)⟩
    rintro ⟨hpaused, step, hstep, ⟨upstream, hcommand⟩, hfailed⟩
    exact ⟨hpaused, step, hlate step hstep (by rw [hcommand]; rfl),
      ⟨upstream, hcommand⟩, hfailed⟩
  · intro hrest
    refine ⟨hrest.idle.imp_right ?_, ?_, ?_, ?_, ?_⟩
    · rintro ⟨hpaused, step, hstep, hsquash⟩
      exact ⟨hpaused, step, hmem step hstep, hsquash⟩
    · rintro step hstep ⟨target, hcommand⟩
      exact hrest.commit step (hlate step hstep (by rw [hcommand]; rfl))
        ⟨target, hcommand⟩
    · rintro step hstep (hcommand | hcommand)
      · exact hrest.resolve step (hlate step hstep (by rw [hcommand]; rfl))
          (.inl hcommand)
      · exact hrest.resolve step (hlate step hstep (by rw [hcommand]; rfl))
          (.inr hcommand)
    · rintro step hstep ⟨upstream, hcommand⟩
      exact hrest.autosquash step (hlate step hstep (by rw [hcommand]; rfl))
        ⟨upstream, hcommand⟩
    · rintro step hstep ⟨branch, hcommand⟩
      exact hrest.push step (hlate step hstep (by rw [hcommand]; rfl))
        ⟨branch, hcommand⟩

/-- A call that only asked has changed nothing. -/
theorem queried_restored_iff {steps : List Step}
    (hqueries : ∀ step ∈ steps, step.command.queries = true) :
    Restored before before ↔ Recoverable before steps := by
  rw [← List.append_nil steps, Recoverable.append_iff hqueries]
  constructor
  · intro hrestored
    exact ⟨.inl hrestored.idle, by simp, by simp, by simp, by simp⟩
  · intro hrecoverable
    rcases hrecoverable.idle with hidle | ⟨-, step, hstep, -⟩
    · exact ⟨rfl, hidle, rfl⟩
    · cases hstep

/-- A failed call whose push was not rejected has restored everything exactly when
it met no other failure than those it can take back. -/
theorem run_restored_iff {resolved : Except Agent.ToolError Unit} {target : String}
    {steps : List Step} {error : Agent.ToolError}
    (hplays : Plays objects.Does (run resolved target) before steps (.error error) after)
    (hpush : ¬ PushRejected steps) (hrestore : RestoreSucceeds steps) :
    Restored before after ↔ Recoverable before steps := by
  cases resolved with
  | error refusal =>
      obtain ⟨rfl, -, rfl⟩ := plays_fail.1 hplays
      exact queried_restored_iff (by simp)
  | ok resolved =>
      have hquiet : ∀ state command outcome between, command.queries = true →
          objects.Does state command outcome between → state = before →
            between = before := by
        rintro state command outcome between hqueries hdoes rfl
        exact hdoes.eq_of_queries hqueries
      rcases plays_bind.1 hplays with
        ⟨found, between, early, late, hpreflight, hmeld, rfl⟩ | ⟨_, hpreflight, -⟩
      · have hearly := hpreflight.asked asks_preflight
        obtain rfl : between = before := hpreflight.keeps asks_preflight hquiet rfl
        have hlate : ¬ PushRejected late := by
          rintro ⟨step, hstep, hrejected⟩
          exact hpush ⟨step, List.mem_append_right early hstep, hrejected⟩
        have hending := meld_ending hmeld hlate
        rw [hending.restored_iff fun step hstep =>
            hrestore step (List.mem_append_right early hstep),
          Recoverable.append_iff hearly]
      · obtain rfl : after = before := hpreflight.keeps asks_preflight hquiet rfl
        exact queried_restored_iff (hpreflight.asked asks_preflight)

/-- A call that succeeds has put exactly the staged tree on the branch. -/
theorem meld_ok {branch targetSha subject text : String} {steps : List Step}
    (hplays : Plays objects.Does (meld branch targetSha subject) before steps
      (.ok text) after) : objects.tipTree after = before.index := by
  unfold meld at hplays
  rcases plays_git_bind.1 hplays with
    ⟨commit, s1, late, hcommit, hplays1, rfl⟩ | ⟨cut, -, -, herror⟩
  swap
  · cases herror
  rcases plays_failIf_bind.1 hplays1 with ⟨hexit, hplays2⟩ | ⟨-, -, herror, -⟩
  swap
  · cases herror
  obtain ⟨fixup, hcommitted⟩ := hcommit.committed ⟨commit, rfl, not_not.1 hexit⟩
  rcases plays_gitOk_bind hplays2 with
    ⟨head, outcome, s2, late, -, ⟨rfl, -⟩, hplays3, rfl⟩ | ⟨outcome, cut, -, -, -, herror⟩
  swap
  · cases herror
  rcases plays_gitOk_bind hplays3 with
    ⟨tree, outcome, s3, late, htree, ⟨rfl, hread⟩, hplays4, rfl⟩ |
      ⟨outcome, cut, -, -, -, herror⟩
  swap
  · cases herror
  rcases plays_git_bind.1 hplays4 with
    ⟨rebase, s4, late, -, hplays5, rfl⟩ | ⟨cut, -, -, herror⟩
  swap
  · cases herror
  have hbefore : tree = before.index := by
    rw [← hread tree htree, Objects.tipTree, hcommitted.tip_eq]
    exact hcommitted.2.1
  split at hplays5
  · exact absurd (plays_restore_error hplays5) (by rintro ⟨error, herror⟩; cases herror)
  rcases plays_gitOk_bind hplays5 with
    ⟨tree', outcome, s5, late, htree', ⟨rfl, hread'⟩, hplays6, rfl⟩ |
      ⟨outcome, cut, -, -, -, herror⟩
  swap
  · cases herror
  split at hplays6
  · exact absurd (plays_restore_error hplays6) (by rintro ⟨error, herror⟩; cases herror)
  next hsame =>
  rcases plays_git_bind.1 hplays6 with
    ⟨push, s6, late, hpushed, hplays7, rfl⟩ | ⟨cut, -, -, herror⟩
  swap
  · cases herror
  rcases plays_failIf_bind.1 hplays7 with ⟨-, hdone⟩ | ⟨-, -, herror, -⟩
  · obtain ⟨-, -, rfl⟩ := plays_done.1 hdone
    obtain rfl : after = _ := hpushed
    rw [hread' tree' htree', not_not.1 hsame, hbefore]
  · cases herror

/-! ### A rebase that outruns its time -/

/-- A branch of one commit, with a tweak staged on it. -/
def smallObjects : Objects where
  parent := fun commit => if commit = "f" then some "t" else none
  tree := fun commit => if commit = "t" then "old" else "new"
  emptyTree := ""

def tweaked : Checkout where
  refs := ⟨fun name => if name = "feature" then some "t" else none, .onBranch "feature"⟩
  rebase := none
  index := "new"

def committed : Checkout :=
  { tweaked with refs := tweaked.refs.setTip "f" }

/-- The rebase of the fixup commit, stopped on its way. -/
def stuck : Checkout where
  refs := ⟨committed.refs.branches, .detached "t"⟩
  rebase := some ⟨some "feature", "f"⟩
  index := "conflict"

/-- A call up to its rebase. -/
def squashSteps (rebase : Outcome) : List Step :=
  [⟨tweaked, .diffCached, exited 1 "", tweaked⟩,
    ⟨tweaked, .diff, exited 0 "", tweaked⟩,
    ⟨tweaked, .abbrevRef, exited 0 "feature\n", tweaked⟩,
    ⟨tweaked, .log "t", exited 0 "t small\n", tweaked⟩,
    ⟨tweaked, .isAncestor "t" "HEAD", exited 0 "", tweaked⟩,
    ⟨tweaked, .isAncestor "t" "origin/HEAD", exited 1 "", tweaked⟩,
    ⟨tweaked, .commitFixup "t", exited 0 "", committed⟩,
    ⟨committed, .revParseHead, exited 0 "f\n", committed⟩,
    ⟨committed, .revParseTree, exited 0 "new\n", committed⟩,
    ⟨committed, .autosquash "t^", rebase, stuck⟩]

theorem squashSteps_carried {rebase : Outcome} (hrebase : ¬ rebase.Succeeded) :
    ∀ step ∈ squashSteps rebase,
      smallObjects.Does step.before step.command step.reply step.after := by
  have hstaged : ¬ (exited 1 "").Succeeded :=
    Outcome.Failed.not_succeeded ⟨_, rfl, one_ne_zero⟩
  have hbranch : Text.trim "feature\n" = "feature" := by decide
  have hfixup : Text.trim "f\n" = "f" := by decide
  have htree : Text.trim "new\n" = "new" := by decide
  have hcommitted : smallObjects.Committed tweaked "f" committed :=
    ⟨rfl, rfl, by decide, rfl⟩
  have hinterrupted : Objects.Interrupted committed stuck :=
    ⟨⟨"f", rfl, rfl⟩, fun name _ => rfl⟩
  simp only [squashSteps, List.forall_mem_cons]
  refine ⟨⟨rfl, fun hexit => absurd hexit hstaged⟩, rfl,
    ⟨rfl, fun _ => ⟨_, rfl, rfl, hbranch⟩⟩, rfl, rfl, rfl,
    .inl ⟨⟨_, rfl, rfl⟩, "f", hcommitted⟩, ⟨rfl, ?_⟩, ⟨rfl, ?_⟩,
    .inr ⟨hrebase, .inr ⟨rfl, .inr hinterrupted⟩⟩, by simp⟩
  · intro text hspoken
    rw [← exited_says hspoken, hfixup]
    rfl
  · intro text hspoken
    rw [← exited_says hspoken, htree]
    rfl

/-- A tweak is left as a fixup commit under a half-done rebase. -/
theorem timeout_unrestored :
    ∃ steps error, Plays smallObjects.Does (run (.ok ()) "t") tweaked steps
        (.error error) stuck ∧
      ¬ PushRejected steps ∧ RestoreSucceeds steps ∧ ¬ Restored tweaked stuck := by
  have hcut : Outcome.CutOff (.error
      (.timeout "git rebase --autosquash t^" 120 ⟨"", ""⟩)) := ⟨_, rfl⟩
  have hreplay : replay (run (.ok ()) "t") tweaked
      ((squashSteps (.error (.timeout "git rebase --autosquash t^" 120 ⟨"", ""⟩))).map
        fun step => (step.reply, step.after)) = some (squashSteps _, .error _, stuck) :=
    rfl
  refine ⟨_, _, plays_of_replay hreplay (squashSteps_carried hcut.not_succeeded),
    ?_, ?_, ?_⟩
  · simp [PushRejected, squashSteps]
  · simp [RestoreSucceeds, squashSteps, Command.restores]
  · intro hrestored
    cases hrestored.idle

/-- The checkout after the abort, and after each reset. -/
def aborted : Checkout where
  refs := stuck.refs.attach (some "feature") "f"
  rebase := none
  index := "new"

def hardened : Checkout :=
  { aborted with refs := aborted.refs.setTip "f" }

def softened : Checkout :=
  { hardened with refs := hardened.refs.setTip "t" }

/-- A call whose rebase hit a conflict. -/
def conflictSteps : List Step :=
  squashSteps (exited 1 "CONFLICT") ++
    [⟨stuck, .rebaseAbort, exited 0 "", aborted⟩,
      ⟨aborted, .resetHard "f", exited 0 "", hardened⟩,
      ⟨hardened, .resetSoft, exited 0 "", softened⟩]

theorem conflictSteps_carried : ∀ step ∈ conflictSteps,
    smallObjects.Does step.before step.command step.reply step.after := by
  have hfailed : ¬ (exited 1 "CONFLICT").Succeeded :=
    Outcome.Failed.not_succeeded ⟨_, rfl, one_ne_zero⟩
  have hrestore : ∀ step ∈ [(⟨stuck, .rebaseAbort, exited 0 "", aborted⟩ : Step),
      ⟨aborted, .resetHard "f", exited 0 "", hardened⟩,
      ⟨hardened, .resetSoft, exited 0 "", softened⟩],
        smallObjects.Does step.before step.command step.reply step.after := by
    simp only [List.forall_mem_cons]
    exact ⟨fun _ => rfl, fun _ => rfl, fun _ => ⟨"f", "t", rfl, rfl, rfl⟩, by simp⟩
  intro step hmem
  rcases List.mem_append.1 hmem with hmem | hmem
  · exact squashSteps_carried hfailed step hmem
  · exact hrestore step hmem

theorem conflict_restored :
    ∃ steps error, Plays smallObjects.Does (run (.ok ()) "t") tweaked steps
        (.error error) softened ∧
      Recoverable tweaked steps ∧ Restored tweaked softened := by
  have hreplay : replay (run (.ok ()) "t") tweaked
      (conflictSteps.map fun step => (step.reply, step.after)) =
        some (conflictSteps, .error _, softened) := rfl
  have hplays := plays_of_replay hreplay conflictSteps_carried
  have hrecoverable : Recoverable tweaked conflictSteps := by
    constructor
    · exact .inl rfl
    · simp [conflictSteps, squashSteps, Outcome.CutOff, exited]
    · simp [conflictSteps, squashSteps, Outcome.Succeeded, exited]
    · simp [conflictSteps, squashSteps, Outcome.CutOff, exited]
    · simp [conflictSteps, squashSteps]
  refine ⟨_, _, hplays, hrecoverable, (run_restored_iff hplays ?_ ?_).2 hrecoverable⟩
  · simp [PushRejected, conflictSteps, squashSteps]
  · simp [RestoreSucceeds, conflictSteps, squashSteps, Command.restores,
      Outcome.Succeeded, exited]

end Objects

end Kitaebot.Tools.Fixup
