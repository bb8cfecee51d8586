import Kitaebot.Core.Run
import Kitaebot.Tools.Rebase

/-!
# Where a published history comes from

The check that the local branch is what the remote holds is made once, by
`start`; `continue` goes on with whatever rebase the checkout holds.  A run whose
other commands neither begin a rebase nor move HEAD under one keeps the tie
between the two.
-/

namespace Kitaebot.Tools.Rebase

open Agent Dialogue

abbrev Step := Exchange Repository Command Outcome

/-! ### Runs -/

inductive Event where
  /-- A call of the tool. -/
  | act (action : Action) (before : Repository) (steps : List Step)
  /-- Any other local command. -/
  | exec (before after : Repository)

def Event.before : Event → Repository
  | act _ before _ => before
  | exec before _ => before

/-- Calls of the tool and local commands, which do not reach the remote. -/
inductive Run (git : Git) (initial : Repository) :
    List Event → Repository → Prop
  | init : Run git initial [] initial
  | act {events : List Event} {repo after : Repository} {action : Action}
      {steps : List Step} {result : Except Agent.ToolError String}
      (onward : Run git initial events repo)
      (plays : Plays git.Does (execute action) repo steps result after) :
      Run git initial (events ++ [.act action repo steps]) after
  | exec {events : List Event} {repo after : Repository}
      (onward : Run git initial events repo) (server : after.server = repo.server)
      (default : after.serverDefault = repo.serverDefault) :
      Run git initial (events ++ [.exec repo after]) after

/-- The command put a history on a branch that the remote had. -/
def Publishes (step : Step) (branch commit : String) : Prop :=
  ((∃ expected, step.command = .pushLease branch expected) ∨
      step.command = .pushNew branch) ∧
    (∃ old, step.before.server branch = some old) ∧
    step.after.server branch = some commit ∧
      (step.reply.Succeeded ∨ step.after.server ≠ step.before.server)

/-- The tree was staged when `continue` went on with the rebase. -/
def Staged (events : List Event) (tree : String) : Prop :=
  ∃ before steps step, .act .continue before steps ∈ events ∧ step ∈ steps ∧
    step.command = .rebaseContinue ∧ step.before.index = tree

/-- A call of `start`, with what its fetch saw on the remote: the branch and the
default branch.  A rebase has been in progress at every event since. -/
structure Begun (events : List Event) (branch held onto : String)
    (late : List Event) : Prop where
  start : ∃ early before steps fetch,
    events = early ++ .act .start before steps :: late ∧ fetch ∈ steps ∧
      fetch.command = .fetch ∧ fetch.after.server branch = some held ∧
        fetch.after.server fetch.after.serverDefault = some onto
  paused : ∀ event ∈ late, event.before.rebase ≠ none

/-- The history is the replay of what the remote branch held at a `start` onto the
default branch of its fetch, with trees staged while that rebase was paused. -/
def OwnReplay (git : Git) (events : List Event) (branch commit : String) : Prop :=
  ∃ held onto late contents, Begun events branch held onto late ∧
    (∀ content ∈ contents, Staged late content) ∧
      git.Replays onto (git.between onto held) contents commit

/-! ### What keeps the tie -/

/-- The name does not itself look like a full reference. -/
def Plain (branch : String) : Prop :=
  ¬ "refs/heads/".toList <+: branch.toList

/-- A fresh clone of a remote with a default branch. -/
structure Cloned (repo : Repository) : Prop where
  configured : repo.configured = true
  originHead : repo.originHead = some ("origin/" ++ repo.serverDefault)
  served : repo.server repo.serverDefault ≠ none
  unshadowed : ∀ name, repo.refs.branches ("origin/" ++ name) = none
  idle : repo.rebase = none

/-- The command leaves the remote's configuration and `origin/HEAD` alone, makes no
local branch that hides a remote-tracking one, begins no rebase, and under one it
does not move HEAD or touch the rebase's state, but may end it. -/
structure Tame (before after : Repository) : Prop where
  configured : after.configured = before.configured
  originHead : after.originHead = before.originHead
  unshadowed : ∀ name, after.refs.branches ("origin/" ++ name) = none
  idle : before.rebase = none → after.rebase = none
  paused : ∀ rebase, before.rebase = some rebase → after.rebase = none ∨
    after.rebase = some rebase ∧ after.refs.tip = before.refs.tip

def Allowed : Event → Prop
  | .act .start before _ => ∀ name, before.refs.head = .onBranch name → Plain name
  | .act _ _ _ => True
  | .exec before after => Tame before after

/-- A replay under way: whatever completes it from here completes the replay of
what the remote branch held at a `start`. -/
def Traced (git : Git) (events : List Event) (branch head : String)
    (todo : List String) : Prop :=
  ∃ held onto late contents, Begun events branch held onto late ∧
    (∀ content ∈ contents, Staged late content) ∧
      ∀ rest last, git.Replays head todo rest last →
        git.Replays onto (git.between onto held) (contents ++ rest) last

structure Sound (git : Git) (events : List Event) (repo : Repository) : Prop where
  configured : repo.configured = true
  originHead : repo.originHead = some ("origin/" ++ repo.serverDefault)
  served : repo.server repo.serverDefault ≠ none
  unshadowed : ∀ name, repo.refs.branches ("origin/" ++ name) = none
  paused : ∀ rebase, repo.rebase = some rebase → ∃ branch head,
    rebase.branch = some branch ∧ Plain branch ∧
      (∀ name, branch ≠ "origin/" ++ name) ∧ repo.refs.tip = some head ∧
        (repo.server branch ≠ none → Traced git events branch head rebase.todo)

section Provenance

variable {git : Git} {events : List Event} {repo after : Repository}
  {branch head : String}

theorem Cloned.sound (hcloned : Cloned repo) : Sound git [] repo where
  configured := hcloned.configured
  originHead := hcloned.originHead
  served := hcloned.served
  unshadowed := hcloned.unshadowed
  paused := by
    intro rebase hrebase
    rw [hcloned.idle] at hrebase
    cases hrebase

theorem Begun.snoc {held onto : String} {late : List Event} {event : Event}
    (hbegun : Begun events branch held onto late)
    (hpaused : event.before.rebase ≠ none) :
    Begun (events ++ [event]) branch held onto (late ++ [event]) where
  start := by
    obtain ⟨early, before, steps, fetch, rfl, hfetch⟩ := hbegun.start
    exact ⟨early, before, steps, fetch, by simp, hfetch⟩
  paused := by
    intro other hmem
    rcases List.mem_append.1 hmem with hmem | hmem
    · exact hbegun.paused other hmem
    · rw [List.mem_singleton.1 hmem]
      exact hpaused

theorem Staged.mono {late more : List Event} {tree : String}
    (hstaged : Staged late tree) : Staged (late ++ more) tree := by
  obtain ⟨before, steps, step, hevent, hstep⟩ := hstaged
  exact ⟨before, steps, step, List.mem_append_left more hevent, hstep⟩

theorem Traced.snoc {todo : List String} {event : Event}
    (htraced : Traced git events branch head todo)
    (hpaused : event.before.rebase ≠ none) :
    Traced git (events ++ [event]) branch head todo := by
  obtain ⟨held, onto, late, contents, hbegun, hstaged, hreplays⟩ := htraced
  exact ⟨held, onto, late ++ [event], contents, hbegun.snoc hpaused,
    fun content hmem => (hstaged content hmem).mono, hreplays⟩

theorem Traced.own (htraced : Traced git events branch head []) :
    OwnReplay git events branch head := by
  obtain ⟨held, onto, late, contents, hbegun, hstaged, hreplays⟩ := htraced
  refine ⟨held, onto, late, contents, hbegun, hstaged, ?_⟩
  simpa using hreplays [] head (.done head)

/-- `continue` carries the tie over to where its rebase has got. -/
theorem Traced.resume {todo todo' : List String} {head' : String}
    {steps : List Step} {step : Step}
    (htraced : Traced git events branch head todo)
    (hpaused : repo.rebase ≠ none) (hstep : step ∈ steps)
    (hcommand : step.command = .rebaseContinue)
    (hresumes : git.Resumes head todo step.before.index head' todo') :
    Traced git (events ++ [.act .continue repo steps]) branch head' todo' := by
  obtain ⟨held, onto, late, contents, hbegun, hstaged, hreplays⟩ := htraced
  obtain ⟨used, hused, honward⟩ := hresumes.replays
  have hevent : (Event.act .continue repo steps).before.rebase ≠ none := hpaused
  refine ⟨held, onto, late ++ [.act .continue repo steps], contents ++ used,
    hbegun.snoc hevent, ?_, ?_⟩
  · intro content hmem
    rcases List.mem_append.1 hmem with hmem | hmem
    · exact (hstaged content hmem).mono
    · rw [hused content hmem]
      exact ⟨repo, steps, step, by simp, hstep, hcommand, rfl⟩
  · intro rest last hrest
    rw [List.append_assoc]
    exact hreplays (used ++ rest) last (honward rest last hrest)

/-- An event that leaves everything that counts as it was. -/
theorem Sound.snoc {event : Event} (hsound : Sound git events repo)
    (hbefore : event.before = repo) : Sound git (events ++ [event]) repo where
  configured := hsound.configured
  originHead := hsound.originHead
  served := hsound.served
  unshadowed := hsound.unshadowed
  paused := by
    intro rebase hrebase
    obtain ⟨branch, head, hbranch, hplain, hhidden, htip, htraced⟩ :=
      hsound.paused rebase hrebase
    refine ⟨branch, head, hbranch, hplain, hhidden, htip, fun hserver => ?_⟩
    apply (htraced hserver).snoc
    rw [hbefore, hrebase]
    exact Option.some_ne_none rebase

/-- With no rebase in progress there is nothing to trace. -/
theorem Sound.of_idle {events' : List Event} (hsound : Sound git events repo)
    (hconfigured : after.configured = repo.configured)
    (horiginHead : after.originHead = repo.originHead)
    (hdefault : after.serverDefault = repo.serverDefault)
    (hserved : repo.server repo.serverDefault ≠ none →
      after.server after.serverDefault ≠ none)
    (hunshadowed : ∀ name, after.refs.branches ("origin/" ++ name) = none)
    (hidle : after.rebase = none) : Sound git events' after where
  configured := hconfigured.trans hsound.configured
  originHead := by
    rw [horiginHead, hdefault]
    exact hsound.originHead
  served := hserved hsound.served
  unshadowed := hunshadowed
  paused := by
    intro rebase hrebase
    rw [hidle] at hrebase
    cases hrebase

end Provenance

/-! ### What the tool's commands do -/

def Command.quiet : Command → Bool
  | .fetch | .rebase _ | .rebaseContinue | .rebaseAbort | .pushLease _ _
  | .pushNew _ => false
  | _ => true

section Commands

variable {git : Git} {repo after : Repository} {steps : List Step}

theorem does_quiet {command : Command} {outcome : Outcome}
    (hdoes : git.Does repo command outcome after) (hquiet : command.quiet = true) :
    after = repo := by
  cases command with
  | gitPath backend => exact hdoes
  | isThere backend path => exact hdoes.1
  | readHeadName backend path => exact hdoes.1
  | abbrevHead => exact hdoes.1
  | diff => exact hdoes
  | diffCached => exact hdoes
  | abbrevOriginHead => exact hdoes.1
  | revParseHead => exact hdoes.1
  | verifyRemote branch => exact hdoes.1
  | listConflicts => exact hdoes
  | _ => cases hquiet

theorem plays_quiet {Value : Type} {script : Script Value}
    {result : Except Agent.ToolError Value}
    (hplays : Plays git.Does script repo steps result after)
    (hasks : script.Asks (fun command => command.quiet = true)) : after = repo := by
  have hkeeps : ∀ state command outcome between, command.quiet = true →
      git.Does state command outcome between → state = repo → between = repo := by
    rintro state command outcome between hquiet hdoes rfl
    exact does_quiet hdoes hquiet
  exact hplays.keeps hasks hkeeps rfl

theorem not_publishes {step : Step} {branch commit : String}
    (hquiet : step.command.quiet = true ∨ step.command = .fetch ∨
      (∃ base, step.command = .rebase base) ∨ step.command = .rebaseContinue ∨
        step.command = .rebaseAbort) : ¬ Publishes step branch commit := by
  rintro ⟨⟨expected, hpush⟩ | hpush, -⟩
  · rw [hpush] at hquiet
    simp [Command.quiet] at hquiet
  · rw [hpush] at hquiet
    simp [Command.quiet] at hquiet

theorem asks_inProgressIn (backends : List Backend) :
    (inProgressIn backends).Asks (fun command => command.quiet = true) := by
  induction backends with
  | nil => trivial
  | cons backend backends ih =>
      apply asks_gitOk_bind (by rfl)
      intro path
      refine Asks.bind ⟨rfl, fun outcome => ?_⟩ fun there => ?_
      · cases outcome with
        | ok out => trivial
        | error error => trivial
      · cases there with
        | true => trivial
        | false => exact ih

theorem asks_rebasedBranchIn (backends : List Backend) :
    (rebasedBranchIn backends).Asks (fun command => command.quiet = true) := by
  induction backends with
  | nil => trivial
  | cons backend backends ih =>
      apply asks_gitOk_bind (by rfl)
      intro path
      refine Asks.bind ⟨rfl, fun outcome => ?_⟩ fun headName => ?_
      · cases outcome with
        | ok out => trivial
        | error error => trivial
      · cases headName with
        | none => exact ih
        | some refname => trivial

theorem asks_pauseOrFail {branch base : String} {out : CmdOutput} :
    (pauseOrFail branch base out).Asks (fun command => command.quiet = true) := by
  apply (asks_inProgressIn _).bind
  intro paused
  apply Asks.failIf_bind
  exact asks_gitOk_bind (by rfl) fun _ => trivial

/-- What `isThere` tells. -/
theorem plays_isThere_bind {Value : Type} {backend : Backend} {path : String}
    {next : Bool → Script Value} {result : Except Agent.ToolError Value}
    (hplays : Plays git.Does (isThere backend path >>= next) repo steps result after) :
    ∃ there outcome late, Plays git.Does (next there) repo late result after ∧
      steps = ⟨repo, .isThere backend path, outcome, repo⟩ :: late ∧
        (there = true ↔ ∃ rebase, repo.rebase = some rebase ∧
          rebase.backend = backend) := by
  rcases plays_bind.1 hplays with
    ⟨there, between, early, late, hthere, hnext, rfl⟩ | ⟨error, hthere, -⟩
  · obtain ⟨outcome, between, rest, ⟨rfl, htold⟩, hdone, rfl⟩ := plays_ask.1 hthere
    cases outcome with
    | ok out =>
        obtain ⟨rfl, hvalue, rfl⟩ := plays_done.1 hdone
        cases hvalue
        refine ⟨_, _, late, hnext, rfl, ?_⟩
        rw [← htold, beq_iff_eq]
        constructor
        · exact fun hexit => ⟨out, rfl, hexit⟩
        · rintro ⟨other, hother, hexit⟩
          cases hother
          exact hexit
    | error error =>
        obtain ⟨rfl, hvalue, rfl⟩ := plays_done.1 hdone
        cases hvalue
        refine ⟨_, _, late, hnext, rfl, ?_⟩
        rw [← htold]
        constructor
        · intro hfalse
          cases hfalse
        · rintro ⟨other, hother, -⟩
          cases hother
  · obtain ⟨outcome, between, rest, -, hdone, -⟩ := plays_ask.1 hthere
    cases outcome with
    | ok out => cases (plays_done.1 hdone).2.1
    | error error => cases (plays_done.1 hdone).2.1

theorem inProgressIn_false {backends : List Backend}
    (hplays : Plays git.Does (inProgressIn backends) repo steps (.ok false) after) :
    ∀ rebase, repo.rebase = some rebase → rebase.backend ∉ backends := by
  induction backends generalizing steps with
  | nil => simp
  | cons backend backends ih =>
      rcases plays_gitOk_bind hplays with
        ⟨path, outcome, between, late, -, hdoes, hrest, -⟩ | ⟨_, _, -, -, -, herror⟩
      swap
      · cases herror
      obtain rfl : between = repo := hdoes
      obtain ⟨there, _, late, hnext, -, htold⟩ := plays_isThere_bind hrest
      cases there with
      | true => cases (plays_done.1 hnext).2.1
      | false =>
          intro rebase hrebase hmem
          rcases List.mem_cons.1 hmem with hbackend | hmem
          · cases htold.2 ⟨rebase, hrebase, hbackend⟩
          · exact ih hnext rebase hrebase hmem

theorem inProgress_false
    (hplays : Plays git.Does inProgress repo steps (.ok false) after) :
    repo.rebase = none := by
  cases hrebase : repo.rebase with
  | none => rfl
  | some rebase =>
      have habsent := inProgressIn_false hplays rebase hrebase
      cases hbackend : rebase.backend with
      | merge => simp [hbackend] at habsent
      | apply => simp [hbackend] at habsent

theorem rebasedBranchIn_some {backends : List Backend} {branch : String}
    (hplays : Plays git.Does (rebasedBranchIn backends) repo steps (.ok (some branch))
      after) : ∃ rebase, repo.rebase = some rebase ∧
        branch = Text.trimStart "refs/heads/" rebase.headName := by
  induction backends generalizing steps with
  | nil => cases (plays_done.1 hplays).2.1
  | cons backend backends ih =>
      rcases plays_gitOk_bind hplays with
        ⟨path, outcome, between, late, -, hdoes, hrest, -⟩ | ⟨_, _, -, -, -, herror⟩
      swap
      · cases herror
      obtain rfl : between = repo := hdoes
      rcases plays_bind.1 hrest with
        ⟨headName, middle, early, rest, hread, hnext, -⟩ | ⟨error, -, herror⟩
      swap
      · cases herror
      obtain ⟨reply, state, more, ⟨rfl, htold⟩, hdone, -⟩ := plays_ask.1 hread
      cases reply with
      | ok out =>
          obtain ⟨-, hvalue, rfl⟩ := plays_done.1 hdone
          cases hvalue
          obtain ⟨rebase, hrebase, -, htext⟩ := htold out rfl
          have hresult := (plays_done.1 hnext).2.1
          rw [htext] at hresult
          cases hresult
          exact ⟨rebase, hrebase, rfl⟩
      | error error =>
          obtain ⟨-, hvalue, rfl⟩ := plays_done.1 hdone
          cases hvalue
          exact ih hnext

/-- A push leaves everything as it was, or lands. -/
theorem does_push {branch : String} {command : Command} {outcome : Outcome}
    (hcommand : (∃ expected, command = .pushLease branch expected) ∨
      command = .pushNew branch) (hdoes : git.Does repo command outcome after) :
    (¬ outcome.Succeeded ∧ after = repo) ∨ repo.Lands branch after := by
  rcases hcommand with ⟨expected, rfl⟩ | rfl
  · exact hdoes.imp_right And.right
  · exact hdoes.imp_right And.left

theorem Publishes.landed {branch name commit : String} {command : Command}
    {outcome : Outcome}
    (hcommand : (∃ expected, command = .pushLease branch expected) ∨
      command = .pushNew branch) (hdoes : git.Does repo command outcome after)
    (hpublishes : Publishes ⟨repo, command, outcome, after⟩ name commit) :
    name = branch ∧ repo.refs.branches branch = some commit ∧
      repo.server branch ≠ none := by
  obtain ⟨hname, ⟨old, hold⟩, hnew, hchanged⟩ := hpublishes
  have hbranch : name = branch := by
    rcases hcommand with ⟨expected, rfl⟩ | rfl
    · rcases hname with ⟨other, hother⟩ | hother
      · cases hother
        rfl
      · cases hother
    · rcases hname with ⟨other, hother⟩ | hother
      · cases hother
      · cases hother
        rfl
  subst hbranch
  refine ⟨rfl, ?_, by rw [hold]; exact Option.some_ne_none old⟩
  rcases does_push hcommand hdoes with ⟨hstops, rfl⟩ | ⟨landed, hlanded, rfl⟩
  · rcases hchanged with hsucceeded | hserver
    · exact absurd hsucceeded hstops
    · exact absurd rfl hserver
  · rw [hlanded]
    simpa using hnew

theorem push_plays {branch base : String} {result : Except Agent.ToolError String}
    (hplays : Plays git.Does (push branch base) repo steps result after) :
    (after = repo ∨ repo.Lands branch after) ∧
      ∀ step ∈ steps, ∀ name commit, Publishes step name commit →
        name = branch ∧ repo.refs.branches branch = some commit ∧
          repo.server branch ≠ none := by
  have hverify : ∀ outcome state, ∀ step ∈ [(⟨repo, .verifyRemote branch, outcome,
      state⟩ : Step)], ∀ name commit, Publishes step name commit →
        name = branch ∧ repo.refs.branches branch = some commit ∧
          repo.server branch ≠ none := by
    intro outcome state step hmem name commit hpublishes
    rw [List.mem_singleton.1 hmem] at hpublishes
    exact absurd hpublishes (not_publishes (.inl rfl))
  rcases plays_git_bind.1 hplays with
    ⟨lease, between, late, ⟨rfl, -⟩, hrest, rfl⟩ | ⟨error, ⟨rfl, -⟩, rfl, -⟩
  swap
  · exact ⟨.inl rfl, hverify _ _⟩
  generalize hchosen : (if lease.exitCode = 0 then
    Command.pushLease branch (Text.trim lease.stdout) else .pushNew branch) = command
      at hrest
  have hcommand : (∃ expected, command = .pushLease branch expected) ∨
      command = .pushNew branch := by
    by_cases hexit : lease.exitCode = 0
    · rw [if_pos hexit] at hchosen
      exact .inl ⟨Text.trim lease.stdout, hchosen.symm⟩
    · rw [if_neg hexit] at hchosen
      exact .inr hchosen.symm
  have hpushed : ∀ outcome state, git.Does between command outcome state →
      (state = between ∨ between.Lands branch state) ∧
        ∀ step ∈ [(⟨between, .verifyRemote branch, .ok lease, between⟩ : Step),
            ⟨between, command, outcome, state⟩], ∀ name commit,
          Publishes step name commit → name = branch ∧
            between.refs.branches branch = some commit ∧
              between.server branch ≠ none := by
    intro outcome state hdoes
    refine ⟨(does_push hcommand hdoes).imp_left And.right, ?_⟩
    intro step hmem name commit hpublishes
    rcases List.mem_cons.1 hmem with hmem | hmem
    · exact hverify _ _ step (List.mem_singleton.2 hmem) name commit hpublishes
    · rw [List.mem_singleton.1 hmem] at hpublishes
      exact hpublishes.landed hcommand hdoes
  rcases plays_git_bind.1 hrest with
    ⟨pushed, landed, late, hdoes, hend, rfl⟩ | ⟨error, hdoes, rfl, -⟩
  swap
  · exact hpushed _ _ hdoes
  rcases plays_failIf_bind.1 hend with ⟨-, hdone⟩ | ⟨-, rfl, -, rfl⟩
  · obtain ⟨rfl, -, rfl⟩ := plays_done.1 hdone
    exact hpushed _ _ hdoes
  · exact hpushed _ _ hdoes

/-- What follows a rebase command pushes only after its success. -/
theorem settle_plays {branch base : String} {out : CmdOutput}
    {result : Except Agent.ToolError String}
    (hplays : Plays git.Does (settle branch base out) repo steps result after) :
    (after = repo ∨ out.exitCode = 0 ∧ repo.Lands branch after) ∧
      ∀ step ∈ steps, ∀ name commit, Publishes step name commit →
        out.exitCode = 0 ∧ name = branch ∧
          repo.refs.branches branch = some commit ∧ repo.server branch ≠ none := by
  unfold settle at hplays
  by_cases hexit : out.exitCode = 0
  · rw [if_neg (not_not.2 hexit)] at hplays
    obtain ⟨hafter, hpushed⟩ := push_plays hplays
    exact ⟨hafter.imp_right fun hlands => ⟨hexit, hlands⟩,
      fun step hmem name commit hpublishes =>
        ⟨hexit, hpushed step hmem name commit hpublishes⟩⟩
  · rw [if_pos hexit] at hplays
    refine ⟨.inl (plays_quiet hplays asks_pauseOrFail), ?_⟩
    intro step hmem name commit hpublishes
    have hquiet := hplays.asked asks_pauseOrFail step hmem
    exact absurd hpublishes (not_publishes (.inl hquiet))

/-- What follows a rebase command with this outcome: nothing, or the push of the
branch after a success. -/
structure Settles (branch : String) (outcome : Outcome) (between : Repository)
    (late : List Step) (after : Repository) : Prop where
  after : after = between ∨ outcome.Succeeded ∧ between.Lands branch after
  publishes : ∀ step ∈ late, ∀ name commit, Publishes step name commit →
    outcome.Succeeded ∧ name = branch ∧
      between.refs.branches branch = some commit ∧ between.server branch ≠ none

theorem settles_of_plays {branch base : String} {out : CmdOutput}
    {result : Except Agent.ToolError String}
    (hplays : Plays git.Does (settle branch base out) repo steps result after) :
    Settles branch (.ok out) repo steps after := by
  obtain ⟨hafter, hpublishes⟩ := settle_plays hplays
  constructor
  · exact hafter.imp_right fun ⟨hexit, hlands⟩ => ⟨⟨out, rfl, hexit⟩, hlands⟩
  · intro step hmem name commit hstep
    obtain ⟨hexit, hrest⟩ := hpublishes step hmem name commit hstep
    exact ⟨⟨out, rfl, hexit⟩, hrest⟩

theorem settles_nil {branch : String} {outcome : Outcome} :
    Settles branch outcome repo [] repo where
  after := .inl rfl
  publishes := by simp

/-- What `start` found before its rebase: the branch is not under a rebase and, if
the fetched remote has it, at the same commit there. -/
structure Prepared (repo : Repository) (branch base : String) (steps : List Step)
    (tracking : String → Option String) : Prop where
  idle : repo.rebase = none
  onBranch : repo.refs.head = .onBranch branch
  resolved : repo.originHead = some base
  fetched : repo.configured = true → ∀ name, repo.server name ≠ none →
    tracking ("origin/" ++ name) = repo.server name
  verified : ({ repo with tracking } : Repository).lookup ("origin/" ++ branch) = none ∨
    ({ repo with tracking } : Repository).lookup ("origin/" ++ branch) = repo.refs.tip
  fetch : ∃ fetch ∈ steps, fetch.command = .fetch ∧ fetch.after = { repo with tracking }

theorem asks_prepare :
    prepare.Asks (fun command => command.quiet = true ∨ command = .fetch) := by
  unfold prepare
  apply ((asks_inProgressIn _).mono fun _ => Or.inl).bind
  intro busy
  apply Asks.failIf_bind
  apply asks_gitOk_bind (.inl rfl)
  intro branch
  apply Asks.failIf_bind
  apply asks_git_bind (.inl rfl)
  intro unstaged
  apply asks_git_bind (.inl rfl)
  intro staged
  apply Asks.failIf_bind
  apply asks_git_bind (.inr rfl)
  intro fetch
  apply Asks.failIf_bind
  apply asks_gitOk_bind (.inl rfl)
  intro base
  apply Asks.failIf_bind
  apply asks_gitOk_bind (.inl rfl)
  intro head
  apply asks_git_bind (.inl rfl)
  intro remote
  exact Asks.failIf_bind trivial

theorem prepare_keeps {result : Except Agent.ToolError (String × String)}
    (hplays : Plays git.Does prepare repo steps result after) :
    ∃ tracking, after = { repo with tracking } := by
  have hkeeps : ∀ state command outcome between,
      command.quiet = true ∨ command = .fetch →
        git.Does state command outcome between →
          (∃ tracking, state = { repo with tracking }) →
            ∃ tracking, between = { repo with tracking } := by
    rintro state command outcome between (hquiet | rfl) hdoes ⟨tracking, rfl⟩
    · exact ⟨tracking, does_quiet hdoes hquiet⟩
    · obtain ⟨fetched, rfl, -⟩ := hdoes
      exact ⟨fetched, rfl⟩
  exact hplays.keeps asks_prepare hkeeps ⟨repo.tracking, rfl⟩

theorem onBranch_of_getD {text : String}
    (htext : repo.refs.head.branch?.getD "HEAD" = text) (hbranch : text ≠ "HEAD") :
    repo.refs.head = .onBranch text := by
  cases hhead : repo.refs.head with
  | onBranch name =>
      rw [hhead] at htext
      rw [← htext]
      rfl
  | detached commit =>
      rw [hhead] at htext
      exact absurd htext.symm hbranch

theorem prepare_ok {branch base : String}
    (hplays : Plays git.Does prepare repo steps (.ok (branch, base)) after) :
    ∃ tracking, after = { repo with tracking } ∧
      Prepared repo branch base steps tracking := by
  unfold prepare at hplays
  rcases plays_bind.1 hplays with
    ⟨busy, between, checks, late, hchecks, hplays1, rfl⟩ | ⟨error, -, herror⟩
  swap
  · cases herror
  obtain rfl := plays_quiet hchecks (asks_inProgressIn _)
  rcases plays_failIf_bind.1 hplays1 with ⟨hbusy, hplays2⟩ | ⟨-, -, herror, -⟩
  swap
  · cases herror
  have hfalse : busy = false := by simpa using hbusy
  subst hfalse
  have hidle := inProgress_false hchecks
  rcases plays_gitOk_bind hplays2 with
    ⟨name, _, state, late1, hname, ⟨rfl, htold⟩, hplays3, rfl⟩ | ⟨_, _, -, -, -, herror⟩
  swap
  · cases herror
  rcases plays_failIf_bind.1 hplays3 with ⟨hbranch, hplays4⟩ | ⟨-, -, herror, -⟩
  swap
  · cases herror
  have honBranch := onBranch_of_getD (htold name hname) hbranch
  rcases plays_git_bind.1 hplays4 with
    ⟨unstaged, state, late2, hdiff, hplays5, rfl⟩ | ⟨_, -, -, herror⟩
  swap
  · cases herror
  obtain rfl : state = _ := hdiff
  rcases plays_git_bind.1 hplays5 with
    ⟨staged, state', late3, hdiff, hplays6, rfl⟩ | ⟨_, -, -, herror⟩
  swap
  · cases herror
  obtain rfl : state' = _ := hdiff
  rcases plays_failIf_bind.1 hplays6 with ⟨-, hplays7⟩ | ⟨-, -, herror, -⟩
  swap
  · cases herror
  rcases plays_git_bind.1 hplays7 with
    ⟨fetch, state, late4, ⟨tracking, rfl, hfetched⟩, hplays8, rfl⟩ | ⟨_, -, -, herror⟩
  swap
  · cases herror
  rcases plays_failIf_bind.1 hplays8 with ⟨hexit, hplays9⟩ | ⟨-, -, herror, -⟩
  swap
  · cases herror
  rcases plays_gitOk_bind hplays9 with
    ⟨text, _, state, late5, htext, ⟨rfl, hresolved⟩, hplays10, rfl⟩ |
      ⟨_, _, -, -, -, herror⟩
  swap
  · cases herror
  rcases plays_failIf_bind.1 hplays10 with ⟨-, hplays11⟩ | ⟨-, -, herror, -⟩
  swap
  · cases herror
  rcases plays_gitOk_bind hplays11 with
    ⟨head, _, state, late6, hhead, ⟨rfl, htip⟩, hplays12, rfl⟩ | ⟨_, _, -, -, -, herror⟩
  swap
  · cases herror
  rcases plays_git_bind.1 hplays12 with
    ⟨remote, state, late7, ⟨rfl, hpresent, habsent⟩, hplays13, rfl⟩ | ⟨_, -, -, herror⟩
  swap
  · cases herror
  rcases plays_failIf_bind.1 hplays13 with ⟨hsame, hdone⟩ | ⟨-, -, herror, -⟩
  swap
  · cases herror
  obtain ⟨-, hvalue, rfl⟩ := plays_done.1 hdone
  cases hvalue
  refine ⟨tracking, rfl, hidle, honBranch, hresolved base htext,
    hfetched ⟨fetch, rfl, not_not.1 hexit⟩, ?_, ?_⟩
  · by_cases hfound : remote.exitCode = 0
    · right
      have hequal : Text.trim remote.stdout = head := by
        by_contra hdiffers
        exact hsame ⟨hfound, hdiffers⟩
      rw [hpresent head ⟨remote, rfl, hfound, hequal⟩]
      exact (htip head hhead).symm
    · exact .inl (habsent ⟨remote, rfl, hfound⟩)
  · exact ⟨⟨state', .fetch, .ok fetch, { state' with tracking }⟩, by simp, rfl, rfl⟩

theorem start_cases {result : Except Agent.ToolError String}
    (hplays : Plays git.Does start repo steps result after) :
    ((∃ tracking, after = { repo with tracking }) ∧
        ∀ step ∈ steps, ∀ name commit, ¬ Publishes step name commit) ∨
      ∃ branch base tracking outcome between early late,
        Prepared repo branch base early tracking ∧
          git.Does { repo with tracking } (.rebase base) outcome between ∧
            steps = early ++
              ⟨{ repo with tracking }, .rebase base, outcome, between⟩ :: late ∧
                (∀ step ∈ early, ∀ name commit, ¬ Publishes step name commit) ∧
                  Settles branch outcome between late after := by
  have hunpublished : ∀ steps : List Step,
      (∀ step ∈ steps, step.command.quiet = true ∨ step.command = .fetch) →
        ∀ step ∈ steps, ∀ name commit, ¬ Publishes step name commit := by
    intro steps hsteps step hmem name commit
    exact not_publishes ((hsteps step hmem).imp_right .inl)
  rcases plays_bind.1 hplays with
    ⟨⟨branch, base⟩, between, early, late, hprepare, hrest, rfl⟩ | ⟨error, hprepare, -⟩
  swap
  · exact .inl ⟨prepare_keeps hprepare,
      hunpublished steps (hprepare.asked asks_prepare)⟩
  have hearly := hunpublished early (hprepare.asked asks_prepare)
  obtain ⟨tracking, rfl, hprepared⟩ := prepare_ok hprepare
  right
  rcases plays_git_bind.1 hrest with
    ⟨out, between, late, hdoes, hsettle, rfl⟩ | ⟨error, hdoes, rfl, -⟩
  · exact ⟨branch, base, tracking, .ok out, between, early, late, hprepared, hdoes, rfl,
      hearly, settles_of_plays hsettle⟩
  · exact ⟨branch, base, tracking, .error error, after, early, [], hprepared, hdoes, rfl,
      hearly, settles_nil⟩

theorem resume_cases {result : Except Agent.ToolError String}
    (hplays : Plays git.Does resume repo steps result after) :
    (after = repo ∧ ∀ step ∈ steps, ∀ name commit, ¬ Publishes step name commit) ∨
      ∃ rebase outcome between early late, repo.rebase = some rebase ∧
        git.Does repo .rebaseContinue outcome between ∧
          steps = early ++ ⟨repo, .rebaseContinue, outcome, between⟩ :: late ∧
            (∀ step ∈ early, ∀ name commit, ¬ Publishes step name commit) ∧
              Settles (Text.trimStart "refs/heads/" rebase.headName) outcome between
                late after := by
  have hunpublished : ∀ steps : List Step,
      (∀ step ∈ steps, step.command.quiet = true) →
        ∀ step ∈ steps, ∀ name commit, ¬ Publishes step name commit := by
    intro steps hsteps step hmem name commit
    exact not_publishes (.inl (hsteps step hmem))
  unfold resume at hplays
  rcases plays_bind.1 hplays with
    ⟨paused, between, first, late, hchecks, hplays1, rfl⟩ | ⟨error, hchecks, -⟩
  swap
  · exact .inl ⟨plays_quiet hchecks (asks_inProgressIn _),
      hunpublished steps (hchecks.asked (asks_inProgressIn _))⟩
  obtain rfl := plays_quiet hchecks (asks_inProgressIn _)
  have hfirst := hchecks.asked (asks_inProgressIn _)
  rcases plays_failIf_bind.1 hplays1 with ⟨-, hplays2⟩ | ⟨-, rfl, -, rfl⟩
  swap
  · exact .inl ⟨rfl, hunpublished _ (by simpa using hfirst)⟩
  rcases plays_bind.1 hplays2 with
    ⟨recorded, between', second, late', hread, hplays3, rfl⟩ | ⟨error, hread, -⟩
  swap
  · refine .inl ⟨plays_quiet hread (asks_rebasedBranchIn _), hunpublished _ ?_⟩
    exact List.forall_mem_append.2
      ⟨hfirst, hread.asked (asks_rebasedBranchIn _)⟩
  obtain rfl := plays_quiet hread (asks_rebasedBranchIn _)
  have hsecond := hread.asked (asks_rebasedBranchIn _)
  cases recorded with
  | none =>
      obtain ⟨rfl, -, rfl⟩ := plays_fail.1 hplays3
      refine .inl ⟨rfl, hunpublished _ ?_⟩
      exact List.forall_mem_append.2 ⟨hfirst, by simpa using hsecond⟩
  | some branch =>
      obtain ⟨rebase, hrebase, rfl⟩ := rebasedBranchIn_some hread
      rcases plays_gitOk_bind hplays3 with
        ⟨base, reply, state, late'', -, ⟨rfl, -⟩, hplays4, rfl⟩ |
          ⟨reply, error, -, ⟨rfl, -⟩, rfl, -⟩
      swap
      · refine .inl ⟨rfl, hunpublished _ ?_⟩
        exact List.forall_mem_append.2
          ⟨hfirst, List.forall_mem_append.2 ⟨hsecond, by simp [Command.quiet]⟩⟩
      right
      have hearly := hunpublished (first ++ (second ++
        [⟨state, .abbrevOriginHead, reply, state⟩])) (List.forall_mem_append.2
          ⟨hfirst, List.forall_mem_append.2 ⟨hsecond, by simp [Command.quiet]⟩⟩)
      rcases plays_git_bind.1 hplays4 with
        ⟨out, between, late, hdoes, hsettle, rfl⟩ | ⟨error, hdoes, rfl, -⟩
      · exact ⟨rebase, .ok out, between, _, late, hrebase, hdoes, by simp, hearly,
          settles_of_plays hsettle⟩
      · exact ⟨rebase, .error error, after, _, [], hrebase, hdoes, by simp, hearly,
          settles_nil⟩

theorem abort_cases {result : Except Agent.ToolError String}
    (hplays : Plays git.Does abort repo steps result after) :
    (after = repo ∨ ∃ rebase index, repo.rebase = some rebase ∧
        after = repo.returned rebase.branch rebase.origHead index) ∧
      ∀ step ∈ steps, ∀ name commit, ¬ Publishes step name commit := by
  have hasks : abort.Asks (fun command =>
      command.quiet = true ∨ command = .rebaseAbort) := by
    apply ((asks_inProgressIn _).mono fun _ => Or.inl).bind
    intro paused
    apply Asks.failIf_bind
    apply asks_git_bind (.inr rfl)
    intro out
    exact Asks.failIf_bind trivial
  constructor
  · unfold abort at hplays
    rcases plays_bind.1 hplays with
      ⟨paused, between, first, late, hchecks, hplays1, -⟩ | ⟨error, hchecks, -⟩
    swap
    · exact .inl (plays_quiet hchecks (asks_inProgressIn _))
    obtain rfl := plays_quiet hchecks (asks_inProgressIn _)
    rcases plays_failIf_bind.1 hplays1 with ⟨-, hplays2⟩ | ⟨-, -, -, rfl⟩
    swap
    · exact .inl rfl
    rcases plays_git_bind.1 hplays2 with
      ⟨out, state, late', hdoes, hplays3, -⟩ | ⟨error, hdoes, -, -⟩
    swap
    · exact hdoes
    rcases plays_failIf_bind.1 hplays3 with ⟨-, hdone⟩ | ⟨-, -, -, rfl⟩
    · obtain ⟨-, -, rfl⟩ := plays_done.1 hdone
      exact hdoes
    · exact hdoes
  · intro step hmem name commit
    have hcommand := hplays.asked hasks step hmem
    exact not_publishes (hcommand.imp_right fun heq => .inr (.inr (.inr heq)))

end Commands

/-! ### One event -/

section Events

variable {git : Git} {events : List Event} {repo after : Repository}
  {branch : String} {steps : List Step}

theorem Sound.fetched (hsound : Sound git events repo)
    (tracking : String → Option String) :
    Sound git events { repo with tracking } where
  configured := hsound.configured
  originHead := hsound.originHead
  served := hsound.served
  unshadowed := hsound.unshadowed
  paused := hsound.paused

/-- A branch that hides no remote-tracking one still hides none after a rebase. -/
theorem unshadowed_attach {refs : Refs} {commit : String}
    (hunshadowed : ∀ name, refs.branches ("origin/" ++ name) = none)
    (hhidden : ∀ name, branch ≠ "origin/" ++ name) (name : String) :
    (refs.attach (some branch) commit).branches ("origin/" ++ name) = none := by
  have hne : "origin/" ++ name ≠ branch := fun heq => hhidden name heq.symm
  change Function.update refs.branches branch (some commit) _ = none
  rw [Function.update_of_ne hne]
  exact hunshadowed name

/-- The end of a rebase, with its push or without. -/
theorem Sound.settled {events' : List Event} {outcome : Outcome}
    {late : List Step} {tracking : String → Option String} {commit index : String}
    (hsound : Sound git events repo) (hhidden : ∀ name, branch ≠ "origin/" ++ name)
    (hsettles : Settles branch outcome
      (({ repo with tracking } : Repository).returned (some branch) commit index)
        late after) : Sound git events' after := by
  have hunshadowed : ∀ name,
      (repo.refs.attach (some branch) commit).branches ("origin/" ++ name) = none :=
    unshadowed_attach hsound.unshadowed hhidden
  rcases hsettles.after with rfl | ⟨-, landed, hlanded, rfl⟩
  · exact hsound.of_idle rfl rfl rfl id hunshadowed rfl
  · refine hsound.of_idle rfl rfl rfl (fun hserved => ?_) hunshadowed rfl
    change Function.update repo.server branch (some landed) repo.serverDefault ≠ none
    by_cases hdefault : repo.serverDefault = branch
    · rw [hdefault, Function.update_self]
      exact Option.some_ne_none landed
    · rw [Function.update_of_ne hdefault]
      exact hserved

/-- What the remote held when a call of `start` fetched is what it replays. -/
theorem Prepared.traced {base onto origHead head : String} {todo : List String}
    {early : List Step} {tracking : String → Option String}
    (hsound : Sound git events repo)
    (hprepared : Prepared repo branch base early tracking)
    (hearly : ∀ step ∈ early, step ∈ steps)
    (honto : ({ repo with tracking } : Repository).lookup base = some onto)
    (htip : repo.refs.tip = some origHead)
    (hpicks : git.Picks onto (git.between onto origHead) head todo)
    (hserver : repo.server branch ≠ none) :
    Traced git (events ++ [.act .start repo steps]) branch head todo := by
  have hlookup : ∀ name, ({ repo with tracking } : Repository).lookup
      ("origin/" ++ name) = tracking ("origin/" ++ name) := by
    intro name
    simp [Repository.lookup, hsound.unshadowed name]
  have hfetched := hprepared.fetched hsound.configured
  have hdefault : repo.server repo.serverDefault = some onto := by
    have hbase : base = "origin/" ++ repo.serverDefault := by
      have hresolved := hprepared.resolved
      rw [hsound.originHead] at hresolved
      exact (Option.some.inj hresolved).symm
    rw [hbase, hlookup, hfetched _ hsound.served] at honto
    exact honto
  have hheld : repo.server branch = some origHead := by
    have hverified := hprepared.verified
    rw [hlookup, hfetched branch hserver] at hverified
    exact (hverified.resolve_left hserver).trans htip
  obtain ⟨fetch, hfetch, hcommand, hafter⟩ := hprepared.fetch
  refine ⟨origHead, onto, [], [], ⟨⟨events, repo, steps, fetch, rfl,
    hearly fetch hfetch, hcommand, ?_, ?_⟩, by simp⟩, by simp, ?_⟩
  · rw [hafter]
    exact hheld
  · rw [hafter]
    exact hdefault
  · intro rest last hrest
    exact hpicks.replays hrest

/-- A call of `start` keeps the tie and publishes its own replay. -/
theorem start_sound {result : Except Agent.ToolError String}
    (hsound : Sound git events repo)
    (hplain : ∀ name, repo.refs.head = .onBranch name → Plain name)
    (hplays : Plays git.Does start repo steps result after) :
    Sound git (events ++ [.act .start repo steps]) after ∧
      ∀ step ∈ steps, ∀ name commit, Publishes step name commit →
        OwnReplay git (events ++ [.act .start repo steps]) name commit := by
  have hsnoc : Sound git (events ++ [.act .start repo steps]) repo := hsound.snoc rfl
  rcases start_cases hplays with
    ⟨⟨tracking, rfl⟩, hsilent⟩ |
      ⟨branch, base, tracking, outcome, between, early, late, hprepared, hdoes, hsteps,
        hearly, hsettles⟩
  · exact ⟨hsnoc.fetched tracking, fun step hmem name commit hpublishes =>
      absurd hpublishes (hsilent step hmem name commit)⟩
  have hpublished : ∀ step ∈ steps, ∀ name commit, Publishes step name commit →
      step ∈ late := by
    intro step hmem name commit hpublishes
    rw [hsteps] at hmem
    rcases List.mem_append.1 hmem with hmem | hmem
    · exact absurd hpublishes (hearly step hmem name commit)
    · rcases List.mem_cons.1 hmem with rfl | hmem
      · exact absurd hpublishes
          (not_publishes (.inr (.inr (.inl ⟨base, rfl⟩))))
      · exact hmem
  have hstopped : ¬ outcome.Succeeded → after = between ∧
      ∀ step ∈ steps, ∀ name commit, ¬ Publishes step name commit := by
    intro hstops
    constructor
    · exact hsettles.after.resolve_right fun hlanded => hstops hlanded.1
    · intro step hmem name commit hpublishes
      exact hstops (hsettles.publishes step
        (hpublished step hmem name commit hpublishes) name commit hpublishes).1
  rcases hdoes with ⟨hstops, rfl⟩ | ⟨-, onto, origHead, head, todo, honto, htip, hpicks,
    hrebases, hdone⟩
  · obtain ⟨rfl, hsilent⟩ := hstopped hstops
    exact ⟨hsnoc.fetched tracking, fun step hmem name commit hpublishes =>
      absurd hpublishes (hsilent step hmem name commit)⟩
  have hincluded : ∀ step ∈ early, step ∈ steps := fun step hmem => by simp [hsteps, hmem]
  have htraced := hprepared.traced hsound hincluded honto htip hpicks
  have hhidden : ∀ name, branch ≠ "origin/" ++ name := by
    rintro name rfl
    have hcommit : repo.refs.branches ("origin/" ++ name) = some origHead := by
      rw [← Refs.tip_of_onBranch hprepared.onBranch]
      exact htip
    rw [hsound.unshadowed] at hcommit
    cases hcommit
  have hbranch : repo.refs.head.branch? = some branch :=
    Refs.onBranch_iff.1 hprepared.onBranch
  change Git.Rebases _ repo.refs.head.branch? _ _ _ _ at hrebases
  rw [hbranch] at hrebases
  cases hrebases with
  | finished index all =>
      subst all
      refine ⟨hsound.settled hhidden hsettles, ?_⟩
      intro step hmem name commit hpublishes
      obtain ⟨-, rfl, hcommit, hserver⟩ := hsettles.publishes step
        (hpublished step hmem name commit hpublishes) name commit hpublishes
      have hhead : commit = head := by
        simpa [Repository.returned, Refs.attach] using hcommit.symm
      rw [hhead]
      exact (htraced hserver).own
  | paused backend index =>
      have hstops : ¬ outcome.Succeeded := fun hsucceeded => by
        cases hdone hsucceeded
      obtain ⟨rfl, hsilent⟩ := hstopped hstops
      refine ⟨⟨hsound.configured, hsound.originHead, hsound.served, hsound.unshadowed,
        ?_⟩, fun step hmem name commit hpublishes =>
          absurd hpublishes (hsilent step hmem name commit)⟩
      intro rebase hrebase
      cases hrebase
      exact ⟨branch, head, rfl, hplain branch hprepared.onBranch, hhidden, rfl, htraced⟩

theorem Plain.trimStart (hplain : Plain branch) :
    Text.trimStart "refs/heads/" ("refs/heads/" ++ branch) = branch :=
  Text.trimStart_append (by decide) hplain

/-- `continue` keeps the tie of the rebase it goes on with. -/
theorem resume_sound {result : Except Agent.ToolError String}
    (hsound : Sound git events repo)
    (hplays : Plays git.Does resume repo steps result after) :
    Sound git (events ++ [.act .continue repo steps]) after ∧
      ∀ step ∈ steps, ∀ name commit, Publishes step name commit →
        OwnReplay git (events ++ [.act .continue repo steps]) name commit := by
  have hsnoc : Sound git (events ++ [.act .continue repo steps]) repo := hsound.snoc rfl
  rcases resume_cases hplays with
    ⟨rfl, hsilent⟩ |
      ⟨rebase, outcome, between, early, late, hrebase, hdoes, hsteps, hearly, hsettles⟩
  · exact ⟨hsnoc, fun step hmem name commit hpublishes =>
      absurd hpublishes (hsilent step hmem name commit)⟩
  have hpublished : ∀ step ∈ steps, ∀ name commit, Publishes step name commit →
      step ∈ late := by
    intro step hmem name commit hpublishes
    rw [hsteps] at hmem
    rcases List.mem_append.1 hmem with hmem | hmem
    · exact absurd hpublishes (hearly step hmem name commit)
    · rcases List.mem_cons.1 hmem with rfl | hmem
      · exact absurd hpublishes (not_publishes (.inr (.inr (.inr (.inl rfl)))))
      · exact hmem
  have hstopped : ¬ outcome.Succeeded → after = between ∧
      ∀ step ∈ steps, ∀ name commit, ¬ Publishes step name commit := by
    intro hstops
    constructor
    · exact hsettles.after.resolve_right fun hlanded => hstops hlanded.1
    · intro step hmem name commit hpublishes
      exact hstops (hsettles.publishes step
        (hpublished step hmem name commit hpublishes) name commit hpublishes).1
  rcases hdoes with ⟨hstops, rfl⟩ | ⟨other, tip, head, todo, hother, htip, hresumes,
    hrebases, hdone⟩
  · obtain ⟨rfl, hsilent⟩ := hstopped hstops
    exact ⟨hsnoc, fun step hmem name commit hpublishes =>
      absurd hpublishes (hsilent step hmem name commit)⟩
  obtain rfl : rebase = other := by
    rw [hrebase] at hother
    exact Option.some.inj hother
  obtain ⟨branch, head', hbranch, hplain, hhidden, htip', htraced⟩ :=
    hsound.paused rebase hrebase
  obtain rfl : tip = head' := by
    rw [htip] at htip'
    exact Option.some.inj htip'
  have hname : Text.trimStart "refs/heads/" rebase.headName = branch := by
    rw [PausedRebase.headName, hbranch]
    exact hplain.trimStart
  have hpaused : repo.rebase ≠ none := by
    rw [hrebase]
    exact Option.some_ne_none rebase
  have hresumed : repo.server branch ≠ none →
      Traced git (events ++ [.act .continue repo steps]) branch head todo := by
    intro hserver
    have hstep : (⟨repo, .rebaseContinue, outcome, between⟩ : Step) ∈ steps := by
      simp [hsteps]
    exact (htraced hserver).resume hpaused hstep rfl hresumes
  rw [hbranch] at hrebases
  rw [hname] at hsettles
  cases hrebases with
  | finished index all =>
      subst all
      refine ⟨Sound.settled hsound hhidden hsettles, ?_⟩
      intro step hmem name commit hpublishes
      obtain ⟨-, rfl, hcommit, hserver⟩ := hsettles.publishes step
        (hpublished step hmem name commit hpublishes) name commit hpublishes
      have hhead : commit = head := by
        simpa [Repository.returned, Refs.attach] using hcommit.symm
      rw [hhead]
      exact (hresumed hserver).own
  | paused backend index =>
      have hstops : ¬ outcome.Succeeded := fun hsucceeded => by
        cases hdone hsucceeded
      obtain ⟨rfl, hsilent⟩ := hstopped hstops
      refine ⟨⟨hsound.configured, hsound.originHead, hsound.served, hsound.unshadowed,
        ?_⟩, fun step hmem name commit hpublishes =>
          absurd hpublishes (hsilent step hmem name commit)⟩
      intro later hlater
      cases hlater
      exact ⟨branch, head, rfl, hplain, hhidden, rfl, hresumed⟩

/-- `abort` publishes nothing and leaves no rebase that is not traced. -/
theorem abort_sound {result : Except Agent.ToolError String}
    (hsound : Sound git events repo)
    (hplays : Plays git.Does abort repo steps result after) :
    Sound git (events ++ [.act .abort repo steps]) after ∧
      ∀ step ∈ steps, ∀ name commit, Publishes step name commit →
        OwnReplay git (events ++ [.act .abort repo steps]) name commit := by
  obtain ⟨hafter, hsilent⟩ := abort_cases hplays
  refine ⟨?_, fun step hmem name commit hpublishes =>
    absurd hpublishes (hsilent step hmem name commit)⟩
  rcases hafter with rfl | ⟨rebase, index, hrebase, rfl⟩
  · exact hsound.snoc rfl
  · obtain ⟨branch, head, hbranch, -, hhidden, -⟩ := hsound.paused rebase hrebase
    rw [hbranch]
    exact hsound.of_idle rfl rfl rfl id (unshadowed_attach hsound.unshadowed hhidden) rfl

theorem act_sound {action : Action} {result : Except Agent.ToolError String}
    (hsound : Sound git events repo) (hallowed : Allowed (.act action repo steps))
    (hplays : Plays git.Does (execute action) repo steps result after) :
    Sound git (events ++ [.act action repo steps]) after ∧
      ∀ step ∈ steps, ∀ name commit, Publishes step name commit →
        OwnReplay git (events ++ [.act action repo steps]) name commit := by
  cases action with
  | abort => exact abort_sound hsound hplays
  | «continue» => exact resume_sound hsound hplays
  | start => exact start_sound hsound hallowed hplays

theorem exec_sound (hsound : Sound git events repo) (htame : Tame repo after)
    (hserver : after.server = repo.server)
    (hdefault : after.serverDefault = repo.serverDefault) :
    Sound git (events ++ [.exec repo after]) after where
  configured := htame.configured.trans hsound.configured
  originHead := by
    rw [htame.originHead, hdefault]
    exact hsound.originHead
  served := by
    rw [hserver, hdefault]
    exact hsound.served
  unshadowed := htame.unshadowed
  paused := by
    intro rebase hrebase
    have hbefore : repo.rebase = some rebase ∧ after.refs.tip = repo.refs.tip := by
      cases hpaused : repo.rebase with
      | none =>
          rw [htame.idle hpaused] at hrebase
          cases hrebase
      | some other =>
          rcases htame.paused other hpaused with hnone | ⟨hsome, htip⟩
          · rw [hnone] at hrebase
            cases hrebase
          · rw [hsome] at hrebase
            exact ⟨hrebase, htip⟩
    obtain ⟨branch, head, hbranch, hplain, hhidden, htip, htraced⟩ :=
      hsound.paused rebase hbefore.1
    refine ⟨branch, head, hbranch, hplain, hhidden, hbefore.2.trans htip, ?_⟩
    intro hserved
    rw [hserver] at hserved
    apply (htraced hserved).snoc
    change repo.rebase ≠ none
    rw [hbefore.1]
    exact Option.some_ne_none rebase

end Events

/-! ### Whole runs -/

section Runs

variable {git : Git} {initial repo : Repository} {events : List Event}

theorem run_sound (hcloned : Cloned initial) (hrun : Run git initial events repo)
    (hallowed : ∀ event ∈ events, Allowed event) :
    Sound git events repo ∧
      ∀ early action before steps late, events = early ++ .act action before steps :: late →
        ∀ step ∈ steps, ∀ branch commit, Publishes step branch commit →
          OwnReplay git (early ++ [.act action before steps]) branch commit := by
  induction hrun with
  | init => exact ⟨hcloned.sound, by simp⟩
  | @act events repo after action steps result _ hplays ih =>
      obtain ⟨hinit, hlast⟩ := List.forall_mem_append.1 hallowed
      obtain ⟨hsound, hown⟩ := ih hinit
      obtain ⟨hsound', hown'⟩ := act_sound hsound (hlast _ (by simp)) hplays
      refine ⟨hsound', ?_⟩
      intro early action' before steps' late hevents
      rcases Run.snoc_eq_split hevents with ⟨rfl, heq⟩ | ⟨late', hinits⟩
      · cases heq
        exact hown'
      · exact hown early action' before steps' late' hinits
  | @exec events repo after _ hserver hdefault ih =>
      obtain ⟨hinit, hlast⟩ := List.forall_mem_append.1 hallowed
      obtain ⟨hsound, hown⟩ := ih hinit
      have htame : Allowed (.exec repo after) := hlast _ (by simp)
      refine ⟨exec_sound hsound htame hserver hdefault, ?_⟩
      intro early action' before steps' late hevents
      rcases Run.snoc_eq_split hevents with ⟨-, heq⟩ | ⟨late', hinits⟩
      · cases heq
      · exact hown early action' before steps' late' hinits

end Runs

/-- One feature commit, which applies on top of the main branch. -/
def linear : Git where
  pick := fun head change => if head = "m" ∧ change = "f" then some "n" else none
  resolve := fun head _ _ => head
  between := fun _ tip => [tip]
  Descends := fun new old => new = old

def origin : String → Option String
  | "main" => some "m"
  | "feature" => some "f"
  | _ => none

def tracked : String → Option String
  | "origin/main" => some "m"
  | "origin/feature" => some "f"
  | _ => none

/-- A clone with the feature branch checked out. -/
def clone : Repository where
  refs := ⟨fun name => if name = "feature" then some "f" else none, .onBranch "feature"⟩
  tracking := tracked
  originHead := some "origin/main"
  configured := true
  rebase := none
  index := "f"
  server := origin
  serverDefault := "main"

theorem clone_unshadowed (name : String) : clone.refs.branches ("origin/" ++ name) = none := by
  have hne : "origin/" ++ name ≠ "feature" := by
    intro heq
    have hlist := congrArg (fun text => text.toList.head?) heq
    simp at hlist
  change (if "origin/" ++ name = "feature" then some "f" else none) = none
  exact if_neg hne

theorem clone_cloned : Cloned clone where
  configured := rfl
  originHead := rfl
  served := by decide
  unshadowed := clone_unshadowed
  idle := rfl

theorem clone_fetched {branch : String} (hserved : origin branch ≠ none) :
    tracked ("origin/" ++ branch) = origin branch := by
  unfold origin at hserved ⊢
  split
  · rfl
  · rfl
  · split at hserved
    · contradiction
    · contradiction
    · exact absurd rfl hserved

/-- The commands with which `settle` finds no rebase in progress. -/
def idleSteps : List Step :=
  [⟨clone, .gitPath .merge, exited 0 ".git/rebase-merge\n", clone⟩,
    ⟨clone, .isThere .merge ".git/rebase-merge", exited 1 "", clone⟩,
    ⟨clone, .gitPath .apply, exited 0 ".git/rebase-apply\n", clone⟩,
    ⟨clone, .isThere .apply ".git/rebase-apply", exited 1 "", clone⟩]

def replayed : Repository :=
  clone.returned (some "feature") "n" "n"

/-- The remote after the push of the branch at a commit. -/
def Repository.pushed (repo : Repository) (branch commit : String) : Repository :=
  { repo with
    server := Function.update repo.server branch (some commit)
    tracking := Function.update repo.tracking ("origin/" ++ branch) (some commit) }

def publishing : Step :=
  ⟨replayed, .pushLease "feature" "f", exited 0 "", replayed.pushed "feature" "n"⟩

def startSteps : List Step :=
  idleSteps ++
    [⟨clone, .abbrevHead, exited 0 "feature\n", clone⟩,
      ⟨clone, .diff, exited 0 "", clone⟩,
      ⟨clone, .diffCached, exited 0 "", clone⟩,
      ⟨clone, .fetch, exited 0 "", clone⟩,
      ⟨clone, .abbrevOriginHead, exited 0 "origin/main\n", clone⟩,
      ⟨clone, .revParseHead, exited 0 "f\n", clone⟩,
      ⟨clone, .verifyRemote "feature", exited 0 "f\n", clone⟩,
      ⟨clone, .rebase "origin/main", exited 0 "", replayed⟩,
      ⟨replayed, .verifyRemote "feature", exited 0 "f\n", replayed⟩, publishing]

theorem exited_failed {stdout : String} : ¬ (exited 1 stdout).Succeeded :=
  Outcome.Failed.not_succeeded ⟨_, rfl, one_ne_zero⟩

theorem exited_succeeded {stdout : String} : (exited 0 stdout).Succeeded :=
  ⟨_, rfl, rfl⟩

theorem pushed_lands {repo : Repository} {branch commit : String}
    (hcommit : repo.refs.branches branch = some commit) :
    repo.Lands branch (repo.pushed branch commit) :=
  ⟨commit, hcommit, rfl⟩

theorem publishing_publishes : Publishes publishing "feature" "n" :=
  ⟨.inl ⟨"f", rfl⟩, ⟨"f", rfl⟩, rfl, .inl exited_succeeded⟩

theorem idleSteps_carried : ∀ step ∈ idleSteps,
    linear.Does step.before step.command step.reply step.after := by
  have hidle : ∀ backend : Backend, (exited 1 "").Succeeded ↔
      ∃ rebase, clone.rebase = some rebase ∧ rebase.backend = backend := by
    intro backend
    apply iff_of_false exited_failed
    rintro ⟨rebase, hrebase, -⟩
    cases hrebase
  simp only [idleSteps, List.forall_mem_cons]
  exact ⟨rfl, ⟨rfl, hidle .merge⟩, rfl, ⟨rfl, hidle .apply⟩, by simp⟩

theorem startSteps_carried : ∀ step ∈ startSteps,
    linear.Does step.before step.command step.reply step.after := by
  have hbranch : Text.trim "feature\n" = "feature" := by decide
  have hmain : Text.trim "origin/main\n" = "origin/main" := by decide
  have hhead : Text.trim "f\n" = "f" := by decide
  have hverified : ∀ repo : Repository, repo.lookup "origin/feature" = some "f" →
      linear.Does repo (.verifyRemote "feature") (exited 0 "f\n") repo := by
    intro repo hlookup
    refine ⟨rfl, fun text hspoken => ?_, fun hfailed =>
      absurd hfailed exited_succeeded.not_failed⟩
    rw [← exited_says hspoken, hhead]
    exact hlookup
  have hrebased : linear.Does clone (.rebase "origin/main") (exited 0 "") replayed :=
    .inr ⟨rfl, "m", "f", "n", [], rfl, rfl, .pick rfl (.stop "n" []), .finished "n" rfl,
      fun _ => rfl⟩
  apply List.forall_mem_append.2 ⟨idleSteps_carried, ?_⟩
  simp only [List.forall_mem_cons]
  refine ⟨⟨rfl, ?_⟩, rfl, rfl, ⟨tracked, rfl, fun _ _ branch => clone_fetched⟩,
    ⟨rfl, ?_⟩, ⟨rfl, ?_⟩, hverified clone rfl, hrebased, hverified replayed rfl,
    .inr ⟨rfl, pushed_lands rfl⟩, by simp⟩
  · intro text hspoken
    rw [← exited_says hspoken, hbranch]
    rfl
  · intro text hspoken
    rw [← exited_says hspoken, hmain]
    rfl
  · intro text hspoken
    rw [← exited_says hspoken, hhead]
    rfl

/-- A rebase begun outside the tool, with a history of its own at HEAD. -/
def cooked : Repository :=
  clone.paused ⟨.merge, some "feature", "f", []⟩ "x" "x"

def laundered : Repository :=
  cooked.returned (some "feature") "x" "x"

def laundering : Step :=
  ⟨laundered, .pushLease "feature" "f", exited 0 "", laundered.pushed "feature" "x"⟩

def continueSteps : List Step :=
  [⟨cooked, .gitPath .merge, exited 0 ".git/rebase-merge\n", cooked⟩,
    ⟨cooked, .isThere .merge ".git/rebase-merge", exited 0 "", cooked⟩,
    ⟨cooked, .gitPath .merge, exited 0 ".git/rebase-merge\n", cooked⟩,
    ⟨cooked, .readHeadName .merge ".git/rebase-merge",
      exited 0 "refs/heads/feature\n", cooked⟩,
    ⟨cooked, .abbrevOriginHead, exited 0 "origin/main\n", cooked⟩,
    ⟨cooked, .rebaseContinue, exited 0 "", laundered⟩,
    ⟨laundered, .verifyRemote "feature", exited 0 "f\n", laundered⟩, laundering]

theorem continueSteps_carried : ∀ step ∈ continueSteps,
    linear.Does step.before step.command step.reply step.after := by
  have hname : Text.trim "refs/heads/feature\n" = "refs/heads/feature" := by decide
  have hmain : Text.trim "origin/main\n" = "origin/main" := by decide
  have hhead : Text.trim "f\n" = "f" := by decide
  have hpaused : cooked.rebase = some ⟨.merge, some "feature", "f", []⟩ := rfl
  simp only [continueSteps, List.forall_mem_cons]
  refine ⟨rfl, ⟨rfl, iff_of_true exited_succeeded ⟨_, hpaused, rfl⟩⟩, rfl,
    ⟨rfl, ?_⟩, ⟨rfl, ?_⟩,
    .inr ⟨_, "x", "x", [], hpaused, rfl, ⟨rfl, rfl⟩, .finished "x" rfl, fun _ => rfl⟩,
    ⟨rfl, ?_, fun hfailed => absurd hfailed exited_succeeded.not_failed⟩,
    .inr ⟨rfl, pushed_lands rfl⟩, by simp⟩
  · intro out hout
    cases hout
    exact ⟨_, hpaused, rfl, hname⟩
  · intro text hspoken
    rw [← exited_says hspoken, hmain]
    rfl
  · intro text hspoken
    rw [← exited_says hspoken, hhead]
    rfl

end Kitaebot.Tools.Rebase
