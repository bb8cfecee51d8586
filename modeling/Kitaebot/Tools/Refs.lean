import Mathlib.Logic.Function.Basic

/-!
# Branches and HEAD

The local branches of a repository and where its HEAD is: on a branch, which
then moves with it, or on a commit of its own.
-/

namespace Kitaebot.Tools

inductive Head where
  | onBranch (name : String)
  | detached (commit : String)
  deriving DecidableEq, Repr

def Head.branch? : Head → Option String
  | onBranch name => some name
  | detached _ => none

structure Refs where
  branches : String → Option String
  head : Head

namespace Refs

/-- The commit HEAD stands for; none on a branch without a commit. -/
def tip (refs : Refs) : Option String :=
  match refs.head with
  | .onBranch name => refs.branches name
  | .detached commit => some commit

/-- Move the branch that HEAD is on, or HEAD itself. -/
def setTip (refs : Refs) (commit : String) : Refs :=
  match refs.head with
  | .onBranch name =>
      { refs with branches := Function.update refs.branches name (some commit) }
  | .detached _ => { refs with head := .detached commit }

/-- Put HEAD on a branch at a commit, or on the commit itself. -/
def attach (refs : Refs) (name : Option String) (commit : String) : Refs :=
  match name with
  | some name =>
      { head := .onBranch name
        branches := Function.update refs.branches name (some commit) }
  | none => { refs with head := .detached commit }

/-- The same refs, but for where HEAD's branch or the detached HEAD points. -/
structure SameBut (before after : Refs) : Prop where
  head : after.head.branch? = before.head.branch?
  branches : ∀ name, before.head ≠ .onBranch name →
    after.branches name = before.branches name

variable {refs before between after : Refs} {commit : String} {name : Option String}

theorem onBranch_iff {branch : String} :
    refs.head = .onBranch branch ↔ refs.head.branch? = some branch := by
  cases refs.head with
  | onBranch other => simp [Head.branch?]
  | detached other => simp [Head.branch?]

@[simp]
theorem tip_setTip : (refs.setTip commit).tip = some commit := by
  cases hhead : refs.head with
  | onBranch branch => simp [setTip, tip, hhead]
  | detached other => simp [setTip, tip, hhead]

theorem tip_of_onBranch {branch : String} (hhead : refs.head = .onBranch branch) :
    refs.tip = refs.branches branch := by
  rw [tip, hhead]

theorem SameBut.refl (refs : Refs) : SameBut refs refs where
  head := rfl
  branches := fun _ _ => rfl

theorem SameBut.trans (hfirst : SameBut before between)
    (hsecond : SameBut between after) : SameBut before after where
  head := hsecond.head.trans hfirst.head
  branches := by
    intro branch hbranch
    have hbetween : between.head ≠ .onBranch branch := by
      rw [Ne, onBranch_iff, hfirst.head, ← onBranch_iff]
      exact hbranch
    rw [hsecond.branches branch hbetween, hfirst.branches branch hbranch]

theorem SameBut.setTip (refs : Refs) (commit : String) :
    SameBut refs (refs.setTip commit) := by
  cases hhead : refs.head with
  | onBranch branch =>
      constructor
      · simp [Refs.setTip, hhead]
      · intro other hother
        have hne : other ≠ branch := by
          rintro rfl
          exact hother hhead
        simp [Refs.setTip, hhead, Function.update_of_ne hne]
  | detached old =>
      constructor
      · simp [Refs.setTip, hhead, Head.branch?]
      · intro other _
        simp [Refs.setTip, hhead]

/-- Setting the tip back undoes what it and its refs differ in. -/
theorem SameBut.setTip_back (hsame : SameBut before after)
    (htip : before.tip = some commit) : after.setTip commit = before := by
  obtain ⟨branches, head⟩ := before
  obtain ⟨branches', head'⟩ := after
  obtain ⟨hhead, hbranches⟩ := hsame
  cases head with
  | onBranch branch =>
      cases head' with
      | onBranch other =>
          cases hhead
          have hupdate : Function.update branches' branch (some commit) = branches := by
            funext other
            by_cases hother : other = branch
            · subst hother
              rw [Function.update_self]
              exact htip.symm
            · rw [Function.update_of_ne hother]
              exact hbranches other fun heq => hother (Head.onBranch.inj heq).symm
          simp [Refs.setTip, hupdate]
      | detached other => cases hhead
  | detached old =>
      cases head' with
      | onBranch other => cases hhead
      | detached other =>
          cases htip
          have hsame : branches' = branches := by
            funext other
            exact hbranches other fun heq => by cases heq
          simp [Refs.setTip, hsame]

theorem SameBut.attach (hbranches : ∀ branch, before.head ≠ .onBranch branch →
      after.branches branch = before.branches branch) :
    SameBut before (after.attach before.head.branch? commit) := by
  cases hhead : before.head with
  | onBranch branch =>
      constructor
      · simp [Refs.attach, Head.branch?, hhead]
      · intro other hother
        have hne : other ≠ branch := by
          rintro rfl
          exact hother hhead
        simp [Refs.attach, Head.branch?, Function.update_of_ne hne,
          hbranches other hother]
  | detached old =>
      constructor
      · simp [Refs.attach, Head.branch?, hhead]
      · intro other hother
        simp [Refs.attach, Head.branch?, hbranches other hother]

@[simp]
theorem branch?_setTip : (refs.setTip commit).head.branch? = refs.head.branch? :=
  (SameBut.setTip refs commit).head

@[simp]
theorem branch?_attach : (refs.attach name commit).head.branch? = name := by
  cases name with
  | none => rfl
  | some branch => rfl

end Refs

end Kitaebot.Tools
