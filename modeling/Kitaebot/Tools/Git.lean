import Mathlib.Order.Basic
import Kitaebot.Core.Run

/-!
# The history-rewriting git tools

One feature branch of one checkout, its remote-tracking ref and the remote
branch.  A tool call is a sequence of git commands; between any two of them
other calls, fetches and other parties' pushes may come.  Commits are ordered
by ancestry, and what a replay or a melding makes of the branch is arbitrary.

The list of all positions the local branch has had, and the position that
`start`'s own fetch left, are ghosts: no command reads them.
-/

namespace Kitaebot.Tools.Git

variable {Commit : Type*}

inductive RebaseOutcome (Commit : Type*) where
  | finished (head : Commit)
  | paused
  | failed
  deriving DecidableEq, Repr

/-- A call in flight, by the last command it has run. -/
inductive Call (Commit : Type*) where
  | fetched (observed : Option Commit)
  | headRead (observed : Option Commit) (head : Commit)
  | verified (observed : Option Commit)
  | replayed (observed : Option Commit)
  | leased (observed expected : Option Commit)
  | fixupCommitted (original : Commit)
  | melded
  deriving DecidableEq, Repr

/-- What a call observed that is at its divergence check. -/
def Call.checked : Call Commit → Option (Option Commit)
  | headRead observed _ => some observed
  | _ => none

/-- What a call observed that is about to read its lease. -/
def Call.rebased : Call Commit → Option (Option Commit)
  | replayed observed => some observed
  | _ => none

structure Repository (Commit : Type*) where
  branch : Commit
  remote : Option Commit
  tracking : Option Commit
  /-- A paused rebase, with what its `start` observed. -/
  pausedRebase : Option (Option Commit)
  calls : List (Call Commit)
  heads : List Commit
  deriving DecidableEq, Repr

inductive Event (Commit : Type*) where
  /-- `git_rebase start`, up to its own fetch. -/
  | startFetch
  | readHead (call : ℕ)
  | verifyRemote (call : ℕ)
  | rebase (call : ℕ) (outcome : RebaseOutcome Commit)
  | continueRebase (outcome : RebaseOutcome Commit)
  | abort
  | readLease (call : ℕ)
  | pushLease (call : ℕ)
  /-- `git_fixup`, up to its fixup commit. -/
  | commitFixup (commit : Commit)
  | autosquash (call : ℕ) (outcome : Option Commit)
  | pushFixup (call : ℕ)
  /-- A call that fails at another command, or is cancelled. -/
  | stop (call : ℕ)
  /-- `git_fetch` of refs that take in the branch. -/
  | gitFetch
  /-- Another party sets or deletes the remote branch. -/
  | otherPush (position : Option Commit)
  /-- Any other local move of the branch. -/
  | moveBranch (head : Commit)
  deriving DecidableEq, Repr

namespace Repository

/-- A checkout of the branch with no call in flight. -/
def fresh (branch : Commit) (remote tracking : Option Commit) :
    Repository Commit where
  branch
  remote
  tracking
  pausedRebase := none
  calls := []
  heads := [branch]

def setBranch (repo : Repository Commit) (head : Commit) : Repository Commit :=
  { repo with branch := head, heads := head :: repo.heads }

/-- A fetch moves the tracking ref; without a remote branch the ref stays. -/
def fetch (repo : Repository Commit) : Repository Commit :=
  match repo.remote with
  | some position => { repo with tracking := some position }
  | none => repo

def setCall (repo : Repository Commit) (index : ℕ) (call : Call Commit) :
    Repository Commit :=
  { repo with calls := repo.calls.set index call }

def addCall (repo : Repository Commit) (call : Call Commit) : Repository Commit :=
  { repo with calls := repo.calls ++ [call] }

def endCall (repo : Repository Commit) (index : ℕ) : Repository Commit :=
  { repo with calls := repo.calls.eraseIdx index }

/-- A push that the remote accepted. -/
def publish (repo : Repository Commit) : Repository Commit :=
  { repo with remote := some repo.branch, tracking := some repo.branch }

variable [LE Commit] [DecidableEq Commit] [DecidableLE Commit]

/-- The remote takes a lease push at the expected position only, and a plain
push of a new branch or a fast-forward. -/
def accepts (repo : Repository Commit) : Option Commit → Bool
  | some expected => repo.remote == some expected
  | none =>
      match repo.remote with
      | none => true
      | some position => position ≤ repo.branch

def step (repo : Repository Commit) : Event Commit → Repository Commit
  | .startFetch =>
      if repo.pausedRebase.isSome then repo
      else repo.fetch.addCall (.fetched repo.fetch.tracking)
  | .readHead index =>
      match repo.calls[index]? with
      | some (.fetched observed) =>
          repo.setCall index (.headRead observed repo.branch)
      | _ => repo
  | .verifyRemote index =>
      match repo.calls[index]? with
      | some (.headRead observed head) =>
          if repo.tracking = none ∨ repo.tracking = some head then
            repo.setCall index (.verified observed)
          else repo.endCall index
      | _ => repo
  | .rebase index outcome =>
      match repo.calls[index]? with
      | some (.verified observed) =>
          if repo.pausedRebase.isSome then repo.endCall index
          else match outcome with
            | .finished head =>
                (repo.setBranch head).setCall index (.replayed observed)
            | .paused =>
                { repo.endCall index with pausedRebase := some observed }
            | .failed => repo.endCall index
      | _ => repo
  | .continueRebase outcome =>
      match repo.pausedRebase with
      | none => repo
      | some observed =>
          match outcome with
          | .finished head =>
              ({ repo.setBranch head with pausedRebase := none }).addCall
                (.replayed observed)
          | .paused => repo
          | .failed => { repo with pausedRebase := none }
  | .abort => { repo with pausedRebase := none }
  | .readLease index =>
      match repo.calls[index]? with
      | some (.replayed observed) =>
          repo.setCall index (.leased observed repo.tracking)
      | _ => repo
  | .pushLease index =>
      match repo.calls[index]? with
      | some (.leased _ expected) =>
          if repo.accepts expected then (repo.endCall index).publish
          else repo.endCall index
      | _ => repo
  | .commitFixup commit =>
      if repo.pausedRebase.isSome then repo
      else (repo.setBranch commit).addCall (.fixupCommitted repo.branch)
  | .autosquash index outcome =>
      match repo.calls[index]? with
      | some (.fixupCommitted original) =>
          match outcome with
          | some head => (repo.setBranch head).setCall index .melded
          | none => (repo.setBranch original).endCall index
      | _ => repo
  | .pushFixup index =>
      match repo.calls[index]? with
      | some .melded =>
          -- the bare lease expects what the tracking ref holds, or no branch
          if repo.remote = repo.tracking then (repo.endCall index).publish
          else repo.endCall index
      | _ => repo
  | .stop index => repo.endCall index
  | .gitFetch => repo.fetch
  | .otherPush position => { repo with remote := position }
  | .moveBranch head => repo.setBranch head

end Repository

/-! ## What a push may remove -/

section Safety

variable [LE Commit] [DecidableEq Commit] [DecidableLE Commit]

/-- The local branch has contained the commit. -/
def Contained (repo : Repository Commit) (commit : Commit) : Prop :=
  ∃ head ∈ repo.heads, commit ≤ head

/-- The remote branch contains the commit. -/
def OnRemote (repo : Repository Commit) (commit : Commit) : Prop :=
  ∃ position ∈ repo.remote, commit ≤ position

def Event.isToolPush : Event Commit → Bool
  | pushLease _ => true
  | pushFixup _ => true
  | _ => false

/-- A push of the tools removes only commits that the local branch has
contained, and the lease of a rebase is what its start observed. -/
def SafePush (repo : Repository Commit) (event : Event Commit) : Prop :=
  (event.isToolPush = true → ∀ commit, OnRemote repo commit →
    ¬ OnRemote (repo.step event) commit → Contained repo commit) ∧
  ∀ index observed expected, event = .pushLease index →
    repo.calls[index]? = some (.leased observed expected) → expected = observed

/-- A rebase finds the tracking ref where its start's fetch left it, at the
divergence check and at the lease; a fixup's push finds it at a commit that the
local branch has contained, or away from the remote branch. -/
def Undisturbed (repo : Repository Commit) : Event Commit → Prop
  | .verifyRemote index =>
      ∀ observed ∈ repo.calls[index]?.bind Call.checked, repo.tracking = observed
  | .readLease index =>
      ∀ observed ∈ repo.calls[index]?.bind Call.rebased, repo.tracking = observed
  | .pushFixup index => repo.calls[index]? = some .melded →
      ∀ position ∈ repo.tracking, repo.remote = some position →
        Contained repo position
  | _ => True

instance (repo : Repository Commit) (commit : Commit) :
    Decidable (Contained repo commit) :=
  inferInstanceAs (Decidable (∃ head ∈ repo.heads, commit ≤ head))

instance (repo : Repository Commit) (commit : Commit) :
    Decidable (OnRemote repo commit) :=
  inferInstanceAs (Decidable (∃ position ∈ repo.remote, commit ≤ position))

instance (repo : Repository Commit) (event : Event Commit) :
    Decidable (Undisturbed repo event) := by
  cases event <;> unfold Undisturbed <;> infer_instance

end Safety

/-! ## Runs -/

section Runs

variable [Preorder Commit]

/-- The local branch has contained what was observed, if anything. -/
def Known (repo : Repository Commit) (observed : Option Commit) : Prop :=
  ∀ position ∈ observed, Contained repo position

/-- What the commands of a call have established. -/
def CallSound (repo : Repository Commit) : Call Commit → Prop
  | .fetched _ => True
  | .headRead _ head => head ∈ repo.heads
  | .verified observed => Known repo observed
  | .replayed observed => Known repo observed
  | .leased observed expected => expected = observed ∧ Known repo observed
  | .fixupCommitted _ => True
  | .melded => True

structure Sound (repo : Repository Commit) : Prop where
  branch : repo.branch ∈ repo.heads
  calls : ∀ call ∈ repo.calls, CallSound repo call
  paused : ∀ observed ∈ repo.pausedRebase, Known repo observed

theorem Known.mono {repo after : Repository Commit} {observed : Option Commit}
    (hknown : Known repo observed) (hheads : repo.heads ⊆ after.heads) :
    Known after observed := by
  intro position hposition
  obtain ⟨head, hhead, hle⟩ := hknown position hposition
  exact ⟨head, hheads hhead, hle⟩

theorem CallSound.mono {repo after : Repository Commit} {call : Call Commit}
    (hcall : CallSound repo call) (hheads : repo.heads ⊆ after.heads) :
    CallSound after call := by
  cases call with
  | fetched observed => trivial
  | headRead observed head => exact hheads hcall
  | verified observed => exact Known.mono hcall hheads
  | replayed observed => exact Known.mono hcall hheads
  | leased observed expected => exact ⟨hcall.1, Known.mono hcall.2 hheads⟩
  | fixupCommitted original => trivial
  | melded => trivial

/-- Any step keeps the invariant that keeps the heads and adds sound calls. -/
theorem Sound.of_calls {repo after : Repository Commit} (hrepo : Sound repo)
    (hheads : repo.heads ⊆ after.heads) (hbranch : after.branch ∈ after.heads)
    (hcalls : ∀ call ∈ after.calls, call ∈ repo.calls ∨ CallSound after call)
    (hpaused : ∀ observed ∈ after.pausedRebase,
      repo.pausedRebase = some observed ∨ Known after observed) :
    Sound after where
  branch := hbranch
  calls := by
    intro call hcall
    rcases hcalls call hcall with hold | hnew
    · exact (hrepo.calls call hold).mono hheads
    · exact hnew
  paused := by
    intro observed hobserved
    rcases hpaused observed hobserved with hold | hnew
    · exact (hrepo.paused observed hold).mono hheads
    · exact hnew

/-- A push from a position that the local branch has contained loses nothing
else. -/
theorem contained_of_onRemote {repo : Repository Commit}
    (hknown : Known repo repo.remote) {commit : Commit}
    (hremote : OnRemote repo commit) : Contained repo commit := by
  obtain ⟨position, hposition, hle⟩ := hremote
  obtain ⟨head, hhead, hbelow⟩ := hknown position hposition
  exact ⟨head, hhead, hle.trans hbelow⟩

namespace Sound

variable {repo : Repository Commit}

theorem fresh (branch : Commit) (remote tracking : Option Commit) :
    Sound (Repository.fresh branch remote tracking) where
  branch := List.mem_singleton.mpr rfl
  calls := nofun
  paused := nofun

theorem fetch (hrepo : Sound repo) : Sound repo.fetch := by
  rw [Repository.fetch]
  split
  · exact ⟨hrepo.branch, hrepo.calls, hrepo.paused⟩
  · exact hrepo

theorem setBranch (hrepo : Sound repo) (head : Commit) :
    Sound (repo.setBranch head) := by
  apply hrepo.of_calls
  · exact List.subset_cons_self _ _
  · exact List.mem_cons_self
  · exact fun call hcall => .inl hcall
  · exact fun observed hobserved => .inl hobserved

theorem addCall (hrepo : Sound repo) {call : Call Commit}
    (hcall : CallSound repo call) : Sound (repo.addCall call) := by
  apply hrepo.of_calls
  · exact List.Subset.refl _
  · exact hrepo.branch
  · intro other hother
    rcases List.mem_append.mp hother with hold | hnew
    · exact .inl hold
    · rw [List.mem_singleton.mp hnew]
      exact .inr (hcall.mono (List.Subset.refl _))
  · exact fun observed hobserved => .inl hobserved

theorem setCall (hrepo : Sound repo) (index : ℕ) {call : Call Commit}
    (hcall : CallSound repo call) : Sound (repo.setCall index call) := by
  apply hrepo.of_calls
  · exact List.Subset.refl _
  · exact hrepo.branch
  · intro other hother
    rcases List.mem_or_eq_of_mem_set hother with hold | rfl
    · exact .inl hold
    · exact .inr (hcall.mono (List.Subset.refl _))
  · exact fun observed hobserved => .inl hobserved

theorem endCall (hrepo : Sound repo) (index : ℕ) : Sound (repo.endCall index) := by
  apply hrepo.of_calls
  · exact List.Subset.refl _
  · exact hrepo.branch
  · exact fun call hcall => .inl (List.mem_of_mem_eraseIdx hcall)
  · exact fun observed hobserved => .inl hobserved

theorem pause (hrepo : Sound repo) {paused : Option (Option Commit)}
    (hpaused : ∀ observed ∈ paused, Known repo observed) :
    Sound { repo with pausedRebase := paused } := by
  apply hrepo.of_calls
  · exact List.Subset.refl _
  · exact hrepo.branch
  · exact fun call hcall => .inl hcall
  · exact fun observed hobserved =>
      .inr ((hpaused observed hobserved).mono (List.Subset.refl _))

theorem publish (hrepo : Sound repo) : Sound repo.publish :=
  ⟨hrepo.branch, hrepo.calls, hrepo.paused⟩

theorem call (hrepo : Sound repo) {index : ℕ} {call : Call Commit}
    (hcall : repo.calls[index]? = some call) : CallSound repo call :=
  hrepo.calls call (List.mem_of_getElem? hcall)

variable [DecidableEq Commit] [DecidableLE Commit]

attribute [local simp] Repository.step

/-- The divergence check makes the local branch contain what was observed. -/
theorem verifyRemote (hrepo : Sound repo) (index : ℕ)
    (hundisturbed : Undisturbed repo (.verifyRemote index)) :
    Sound (repo.step (.verifyRemote index)) := by
  rw [Repository.step]
  split
  · next observed head hcall =>
      split
      · next hequal =>
          apply hrepo.setCall
          have htracking : repo.tracking = observed :=
            hundisturbed observed (by rw [hcall]; rfl)
          rw [← htracking]
          intro position hposition
          rcases hequal with hnone | hhead
          · rw [hnone] at hposition
            cases hposition
          · rw [hhead] at hposition
            cases hposition
            exact ⟨head, hrepo.call hcall, le_refl head⟩
      · exact hrepo.endCall index
  · exact hrepo

theorem rebase (hrepo : Sound repo) (index : ℕ)
    (outcome : RebaseOutcome Commit) :
    Sound (repo.step (.rebase index outcome)) := by
  rw [Repository.step]
  split
  · next observed hcall =>
      have hknown : Known repo observed := hrepo.call hcall
      split
      · exact hrepo.endCall index
      · cases outcome with
        | finished head =>
            exact (hrepo.setBranch head).setCall index
              (hknown.mono (List.subset_cons_self _ _))
        | paused =>
            apply (hrepo.endCall index).pause
            intro other hother
            cases hother
            exact hknown.mono (List.Subset.refl _)
        | failed => exact hrepo.endCall index
  · exact hrepo

theorem continueRebase (hrepo : Sound repo) (outcome : RebaseOutcome Commit) :
    Sound (repo.step (.continueRebase outcome)) := by
  rw [Repository.step]
  split
  · exact hrepo
  · next observed hpaused =>
      have hknown : Known repo observed := hrepo.paused observed hpaused
      cases outcome with
      | finished head =>
          have hhead : Sound { repo.setBranch head with pausedRebase := none } :=
            (hrepo.setBranch head).pause nofun
          exact hhead.addCall (hknown.mono (List.subset_cons_self _ _))
      | paused => exact hrepo
      | failed => exact hrepo.pause nofun

theorem readLease (hrepo : Sound repo) (index : ℕ)
    (hundisturbed : Undisturbed repo (.readLease index)) :
    Sound (repo.step (.readLease index)) := by
  rw [Repository.step]
  split
  · next observed hcall =>
      have htracking : repo.tracking = observed :=
        hundisturbed observed (by rw [hcall]; rfl)
      exact hrepo.setCall index ⟨htracking, hrepo.call hcall⟩
  · exact hrepo

/-- Undisturbed steps keep the invariant. -/
theorem step (hrepo : Sound repo) (event : Event Commit)
    (hundisturbed : Undisturbed repo event) : Sound (repo.step event) := by
  cases event with
  | startFetch =>
      rw [Repository.step]
      split
      · exact hrepo
      · exact hrepo.fetch.addCall trivial
  | readHead index =>
      rw [Repository.step]
      split
      · exact hrepo.setCall index hrepo.branch
      · exact hrepo
  | verifyRemote index => exact hrepo.verifyRemote index hundisturbed
  | rebase index outcome => exact hrepo.rebase index outcome
  | continueRebase outcome => exact hrepo.continueRebase outcome
  | abort => exact hrepo.pause nofun
  | readLease index => exact hrepo.readLease index hundisturbed
  | pushLease index =>
      rw [Repository.step]
      split
      · split
        · exact (hrepo.endCall index).publish
        · exact hrepo.endCall index
      · exact hrepo
  | commitFixup commit =>
      rw [Repository.step]
      split
      · exact hrepo
      · exact (hrepo.setBranch commit).addCall trivial
  | autosquash index outcome =>
      rw [Repository.step]
      split
      · cases outcome with
        | some head => exact (hrepo.setBranch head).setCall index trivial
        | none => exact (hrepo.setBranch _).endCall index
      · exact hrepo
  | pushFixup index =>
      rw [Repository.step]
      split
      · split
        · exact (hrepo.endCall index).publish
        · exact hrepo.endCall index
      · exact hrepo
  | stop index => exact hrepo.endCall index
  | gitFetch => exact hrepo.fetch
  | otherPush position => exact ⟨hrepo.branch, hrepo.calls, hrepo.paused⟩
  | moveBranch head => exact hrepo.setBranch head

end Sound

variable [DecidableEq Commit] [DecidableLE Commit]

theorem safe_pushLease {repo : Repository Commit} (hrepo : Sound repo)
    (index : ℕ) : SafePush repo (.pushLease index) := by
  refine ⟨fun _ commit hremote hlost => ?_, ?_⟩
  · rw [Repository.step] at hlost
    split at hlost
    · next observed expected hcall =>
        obtain ⟨rfl, hknown⟩ : expected = observed ∧ Known repo observed :=
          hrepo.call hcall
        split at hlost
        · next haccepted =>
            cases expected with
            | some position =>
                have hposition : repo.remote = some position := by
                  simpa [Repository.accepts] using haccepted
                rw [← hposition] at hknown
                exact contained_of_onRemote hknown hremote
            | none =>
                -- a fast-forward keeps every commit
                obtain ⟨position, hposition, hle⟩ := hremote
                rw [Option.mem_def] at hposition
                have hforward : position ≤ repo.branch := by
                  simpa [Repository.accepts, hposition] using haccepted
                exact absurd ⟨repo.branch, rfl, hle.trans hforward⟩ hlost
        · exact absurd hremote hlost
    · exact absurd hremote hlost
  · intro other observed expected hevent hcall
    cases hevent
    have hsound : expected = observed ∧ Known repo observed := hrepo.call hcall
    exact hsound.1

theorem safe_pushFixup {repo : Repository Commit} {index : ℕ}
    (hundisturbed : Undisturbed repo (.pushFixup index)) :
    SafePush repo (.pushFixup index) := by
  refine ⟨fun _ commit hremote hlost => ?_, nofun⟩
  rw [Repository.step] at hlost
  split at hlost
  · next hcall =>
      split at hlost
      · next hequal =>
          refine contained_of_onRemote ?_ hremote
          intro position hposition
          rw [Option.mem_def] at hposition
          have htracking : repo.tracking = some position := hequal ▸ hposition
          exact hundisturbed hcall position htracking hposition
      · exact absurd hremote hlost
  · exact absurd hremote hlost

theorem safePush_of_sound {repo : Repository Commit} (hrepo : Sound repo)
    {event : Event Commit} (hundisturbed : Undisturbed repo event) :
    SafePush repo event := by
  cases event with
  | pushLease index => exact safe_pushLease hrepo index
  | pushFixup index => exact safe_pushFixup hundisturbed
  | _ => exact ⟨nofun, nofun⟩

/-- In every undisturbed run every push of the tools is safe. -/
theorem pushes_safe (branch : Commit) (remote tracking : Option Commit)
    (events : List (Event Commit))
    (hmeets : Run.Meets Repository.step Undisturbed
      (Repository.fresh branch remote tracking) events) :
    Run.Meets Repository.step SafePush
      (Repository.fresh branch remote tracking) events := by
  have hstep : ∀ (repo : Repository Commit) (event : Event Commit),
      Sound repo → Undisturbed repo event →
      Sound (Repository.step repo event) ∧ SafePush repo event :=
    fun repo event hrepo hevent =>
      ⟨hrepo.step event hevent, safePush_of_sound hrepo hevent⟩
  have hstart : Sound (Repository.fresh branch remote tracking) :=
    Sound.fresh branch remote tracking
  exact Run.meets_of_invariant hstep hstart hmeets

end Runs

/-! ## Runs with a fetch in between -/

/-- A commit of a linear history, newest change first. -/
structure Snapshot where
  changes : List ℕ
  deriving DecidableEq, Repr

instance : Preorder Snapshot where
  le first second := first.changes <:+ second.changes
  le_refl snapshot := List.suffix_rfl
  le_trans _ _ _ := List.IsSuffix.trans

instance : DecidableLE Snapshot := fun first second =>
  inferInstanceAs (Decidable (first.changes <:+ second.changes))

/-- A checkout in step with its remote. -/
def startingPoint : Repository Snapshot :=
  .fresh ⟨[1]⟩ (some ⟨[1]⟩) (some ⟨[1]⟩)

/-- A rebase that pauses while another party pushes, up to its own push;
`between` comes before the continue. -/
def pausedRun (between : List (Event Snapshot)) : List (Event Snapshot) :=
  [.startFetch, .readHead 0, .verifyRemote 0, .rebase 0 .paused,
    .otherPush (some ⟨[2, 1]⟩)] ++ between ++
  [.continueRebase (.finished ⟨[3, 5]⟩), .readLease 0]

/-- A fixup after a fetch of another party's push. -/
def fetchedRun : List (Event Snapshot) :=
  [.otherPush (some ⟨[2, 1]⟩), .gitFetch, .commitFixup ⟨[4, 1]⟩,
    .autosquash 0 (some ⟨[6]⟩)]

theorem pushes_safe_paused :
    Run.Meets Repository.step SafePush startingPoint
      (pausedRun [] ++ [.pushLease 0]) :=
  pushes_safe _ _ _ _ (by decide)

/-- A fetch before the push makes the other party's commit the lease, and the
push removes it. -/
theorem fetch_loses_commit :
    ¬ Run.Meets Repository.step SafePush startingPoint
        (pausedRun [.gitFetch] ++ [.pushLease 0]) ∧
      ¬ Run.Meets Repository.step SafePush startingPoint
        (fetchedRun ++ [.pushFixup 0]) := by
  constructor
  · intro hmeets
    have hlost := hmeets.at_event.1 rfl ⟨[2, 1]⟩ (by decide)
      (by decide)
    exact absurd hlost (by decide)
  · intro hmeets
    have hlost := hmeets.at_event.1 rfl ⟨[2, 1]⟩ (by decide)
      (by decide)
    exact absurd hlost (by decide)

end Kitaebot.Tools.Git
