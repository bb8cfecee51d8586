import Kitaebot.Core.Run
import Kitaebot.Duty.CursorText
import Kitaebot.Duty.Positions

/-!
# What moves a duty's cursor

In every run of the scheduler a gate's cursor moves only on first contact, or to
the position up to which a successful turn or warm was probed, from where it stood.
The prompt of a self-analysis turn holds the beginning of what it consumes: each
section is capped.
-/

namespace Kitaebot.Scheduler

open ByteText (utf8ByteSize_ofList)
open SelfAnalysis

section Moves

variable (codec : Codec) (holds : String → Delta → Prop)

/-- Why one run of a duty moves the cursor under a key to a value. -/
inductive Advance (disk : Disk) (env : Env) (duty : Duty) (state : DutyState) :
    String → String → Prop
  /-- First contact with a repo records its head. -/
  | primedCommits (input : String) (sessionHint : Option String) (repo : String)
      (git : Git) (head : String) (haction : duty.action = .dispatch input sessionHint)
      (hgate : duty.gate = some (.newCommits repo)) (hgit : env.git = some git)
      (hhead : git.remoteHead repo = .ok head)
      (hcursor : state.cursor duty.name = none) :
      Advance disk env duty state duty.name head
  /-- A turn that was told to review the commits from the cursor to the head
  succeeded. -/
  | reviewed (input : String) (sessionHint : Option String) (repo : String) (git : Git)
      (cursor head reply : String)
      (haction : duty.action = .dispatch input sessionHint)
      (hgate : duty.gate = some (.newCommits repo)) (hgit : env.git = some git)
      (hhead : git.remoteHead repo = .ok head)
      (hcursor : state.cursor duty.name = some cursor)
      (hturn : env.turn (withNote env sessionHint (commitsInput input cursor head)) =
        .ok reply) :
      Advance disk env duty state duty.name head
  /-- A repo was warmed after its head was probed. -/
  | warmed (git : Git) (nwo head : String) (haction : duty.action = .warm)
      (hgit : env.git = some git) (hmem : nwo ∈ git.warmRepos)
      (hhead : git.remoteHead nwo = .ok head)
      (hwarm : git.prepareAndWarm nwo = "warm") :
      Advance disk env duty state (warmCursorKey nwo) head
  /-- First contact with the sources records their end. -/
  | primedSources (repo : String) (minDeltaTokens : ℕ) (cursor : Cursor)
      (haction : duty.action = .selfAnalysis repo minDeltaTokens)
      (hcursor : state.cursor duty.name = none) (hend : AtEnd disk cursor) :
      Advance disk env duty state duty.name (codec.encode cursor)
  /-- A turn about exactly what lies between the cursor and the end of the sources
  succeeded. -/
  | analysed (repo : String) (minDeltaTokens : ℕ) (cursor next : Cursor)
      (delta : Delta) (github : Github) (proposals : List String) (reply : String)
      (haction : duty.action = .selfAnalysis repo minDeltaTokens)
      (hgithub : env.github = some github)
      (hproposals : github.openProposals repo = .ok proposals)
      (hcursor : state.cursor duty.name = some (codec.encode cursor))
      (hconsumes : Consumes disk cursor delta next)
      (hturn : env.turn (formatPrompt repo delta proposals) = .ok reply)
      (hprompt : holds (formatPrompt repo delta proposals) delta) :
      Advance disk env duty state duty.name (codec.encode next)

/-- A run leaves each cursor, or has a reason to move it. -/
def Moved (disk : Disk) (env : Env) (duty : Duty) (state next : DutyState) : Prop :=
  ∀ key, next.cursor key = state.cursor key ∨
    ∃ value, next.cursor key = some value ∧
      Advance codec holds disk env duty state key value

/-- What a run of a duty does to the persisted state. -/
structure RunSound (config : Config) (disk : Disk) (env : Env) (duty : Duty)
    (state next : DutyState) : Prop where
  lastRun : next.lastRun = Function.update state.lastRun duty.name (some env.now)
  moved : Moved codec holds disk env duty state next
  /-- A cursor under a duty's name, which is no warm key, is moved by that duty. -/
  own : ∀ key value, Advance codec holds disk env duty state key value →
    (∀ nwo, key ≠ warmCursorKey nwo) →
      ∀ owner ∈ buildDuties config, owner.name = key → owner = duty

/-- Only runs change the persisted state, and each of them soundly. -/
def Sound (config : Config) (world : World) (event : Event) : Prop :=
  match event, world.pending with
  | .runNext env, duty :: _ =>
      RunSound codec holds config world.disk env duty world.state
        (step codec config world event).state
  | _, _ => (step codec config world event).state = world.state

end Moves

/-- The prompt holds the capped sections of the delta. -/
def HoldsSections (prompt : String) (delta : Delta) : Prop :=
  Text.Includes prompt
      (String.ofList (Journal.truncateOutput delta.notify sectionMaxBytes)) ∧
    Text.Includes prompt
      (String.ofList (Journal.truncateOutput delta.errors sectionMaxBytes))

/-- The prompt holds all of the delta. -/
def HoldsDelta (prompt : String) (delta : Delta) : Prop :=
  Text.Includes prompt (String.ofList delta.notify) ∧
    Text.Includes prompt (String.ofList delta.errors)

/-! ### Names -/

/-- The names of the duties, in declaration order. -/
theorem names_buildDuties (config : Config) :
    (buildDuties config).map Duty.name =
      "distill" :: config.prompts.map PromptDuty.name ++
        (config.selfAnalysis.map fun _ => "self-analysis").toList ++
          if config.warmConfigured then ["warm"] else [] := by
  rw [buildDuties, List.map_append, List.map_append, List.map_cons, List.map_map]
  cases config.selfAnalysis <;> cases config.warmConfigured <;> rfl

/-- No two duties share a name. -/
theorem nodup_buildDuties (config : Config) :
    ((buildDuties config).map Duty.name).Nodup := by
  have hnames : ∀ name ∈ config.prompts.map PromptDuty.name,
      name ≠ "distill" ∧ name ≠ "warm" ∧ name ≠ "self-analysis" :=
    List.forall_mem_map.2 config.unshadowed
  have hprompts := config.distinct
  rw [names_buildDuties]
  generalize config.prompts.map PromptDuty.name = names at hnames hprompts
  cases config.selfAnalysis <;> cases config.warmConfigured <;>
    simp [List.nodup_append, hprompts] <;> grind

/-- The self-analysis duty is the only one that analyses. -/
theorem name_of_selfAnalysis {config : Config} {duty : Duty}
    (hduty : duty ∈ buildDuties config) {repo : String} {minDeltaTokens : ℕ}
    (haction : duty.action = .selfAnalysis repo minDeltaTokens) :
    duty.name = "self-analysis" := by
  rw [buildDuties, List.mem_append, List.mem_append, List.mem_cons, List.mem_map] at hduty
  obtain ((rfl | ⟨prompt, _, rfl⟩) | hanalysis) | hwarm := hduty
  · cases haction
  · cases haction
  · obtain ⟨settings, _, rfl⟩ := Option.map_eq_some_iff.1 (Option.mem_toList.1 hanalysis)
    rfl
  · split at hwarm
    · rw [List.mem_singleton.1 hwarm] at haction
      cases haction
    · cases hwarm

/-- Only the analysing duty has its name. -/
theorem selfAnalysis_of_name {config : Config} {duty : Duty}
    (hduty : duty ∈ buildDuties config) (hname : duty.name = "self-analysis") :
    ∃ repo minDeltaTokens, duty.action = .selfAnalysis repo minDeltaTokens := by
  rw [buildDuties, List.mem_append, List.mem_append, List.mem_cons, List.mem_map] at hduty
  obtain ((rfl | ⟨prompt, hprompt, rfl⟩) | hanalysis) | hwarm := hduty
  · have hdistill : "distill" = "self-analysis" := hname
    exact absurd hdistill (by decide)
  · exact absurd hname (config.unshadowed prompt hprompt).2.2
  · obtain ⟨settings, _, rfl⟩ := Option.map_eq_some_iff.1 (Option.mem_toList.1 hanalysis)
    exact ⟨_, _, rfl⟩
  · split at hwarm
    · rw [List.mem_singleton.1 hwarm] at hname
      have hwarm : "warm" = "self-analysis" := hname
      exact absurd hwarm (by decide)
    · cases hwarm

theorem eq_of_name_eq {config : Config} {first second : Duty}
    (hfirst : first ∈ buildDuties config) (hsecond : second ∈ buildDuties config)
    (hname : first.name = second.name) : first = second :=
  List.inj_on_of_nodup_map (nodup_buildDuties config) hfirst hsecond hname

theorem ne_warmCursorKey (nwo : String) : "self-analysis" ≠ warmCursorKey nwo := by
  intro heq
  have hhead := congrArg (fun text => text.toList.head?) heq
  simp [warmCursorKey] at hhead

/-! ### One run -/

/-- With a cursor there is no first contact. -/
theorem probe_ne_prime (sources : Sources) (cursor : Cursor) (minDeltaTokens : ℕ)
    (primed : Cursor) : probe sources (some cursor) minDeltaTokens ≠ .ok (.prime primed) := by
  intro hprobe
  rw [probe] at hprobe
  cases hjournal : journalDelta sources.journal cursor.journal with
  | error error =>
      rw [hjournal] at hprobe
      cases hprobe
  | ok notify =>
      cases herrors : errorsDelta sources.errorsDir cursor.errorsFile
          cursor.errorsOffset with
      | error error =>
          simp only [hjournal, herrors] at hprobe
          cases hprobe
      | ok errors =>
          simp only [hjournal, herrors, bind, Except.bind] at hprobe
          split at hprobe <;> cases hprobe

section Run

variable {codec : Codec} {holds : String → Delta → Prop} {disk : Disk} {env : Env}
  {duty : Duty} {state : DutyState}

theorem Moved.refl : Moved codec holds disk env duty state state := fun _ => .inl rfl

theorem Moved.setCursor {key value : String}
    (hadvance : Advance codec holds disk env duty state key value) :
    Moved codec holds disk env duty state (state.setCursor key value) := by
  intro other
  rcases eq_or_ne other key with rfl | hne
  · exact .inr ⟨value, state.cursor_setCursor_self other value, hadvance⟩
  · exact .inl (state.cursor_setCursor_of_ne value hne)

theorem moved_dispatch {input : String} {sessionHint : Option String}
    (haction : duty.action = .dispatch input sessionHint) :
    Moved codec holds disk env duty state
      (dispatch duty input sessionHint env state) := by
  rw [dispatch]
  cases hgate : duty.gate with
  | none =>
      simp only
      split
      · next hcursor => cases hcursor
      · exact .refl
  | some gate =>
      cases gate with
      | newCommits repo =>
          simp only [probeNewCommits]
          cases hgit : env.git with
          | none => exact .refl
          | some git =>
              simp only
              cases hhead : git.remoteHead repo with
              | error error => exact .refl
              | ok head =>
                  simp only [newCommitsDecision]
                  cases hcursor : state.cursor duty.name with
                  | none =>
                      exact .setCursor (.primedCommits input sessionHint repo git head
                        haction hgate hgit hhead hcursor)
                  | some cursor =>
                      by_cases hsame : cursor = head
                      · simp only [if_pos hsame]
                        exact .refl
                      · simp only [if_neg hsame]
                        split
                        · next reply hturn hnew =>
                            cases hnew
                            exact .setCursor (.reviewed input sessionHint repo git cursor
                              head _ haction hgate hgit hhead hcursor ‹_›)
                        · exact .refl

/-- A cursor of the warm gate moves only after a warm. -/
theorem cursor_warmRepo (git : Git) (state : DutyState) (nwo key : String) :
    (warmRepo git state nwo).1.cursor key = state.cursor key ∨
      key = warmCursorKey nwo ∧ git.prepareAndWarm nwo = "warm" ∧
        ∃ head, git.remoteHead nwo = .ok head ∧
          (warmRepo git state nwo).1.cursor key = some head := by
  rw [warmRepo]
  cases hhead : git.remoteHead nwo with
  | error error => exact .inl rfl
  | ok head =>
      simp only
      split
      · simp only
        split
        · next hwarm =>
            rcases eq_or_ne key (warmCursorKey nwo) with rfl | hne
            · exact .inr ⟨rfl, hwarm, head, rfl, state.cursor_setCursor_self _ _⟩
            · exact .inl (state.cursor_setCursor_of_ne _ hne)
        · exact .inl rfl
      · exact .inl rfl

theorem cursor_warmRepos (git : Git) (state : DutyState) (repos : List String)
    (key : String) :
    (warmRepos git state repos).1.cursor key = state.cursor key ∨
      ∃ nwo ∈ repos, key = warmCursorKey nwo ∧ git.prepareAndWarm nwo = "warm" ∧
        ∃ head, git.remoteHead nwo = .ok head ∧
          (warmRepos git state repos).1.cursor key = some head := by
  induction repos generalizing state with
  | nil => exact .inl rfl
  | cons nwo repos ih =>
      have hfirst := cursor_warmRepo git state nwo key
      rw [warmRepos]
      simp only
      obtain hsame | ⟨other, hmem, hrest⟩ := ih (warmRepo git state nwo).1
      · rw [hsame]
        exact hfirst.imp_right fun hmoved => ⟨nwo, List.mem_cons_self, hmoved⟩
      · exact .inr ⟨other, List.mem_cons_of_mem _ hmem, hrest⟩

theorem moved_runWarm {git : Git} (haction : duty.action = .warm)
    (hgit : env.git = some git) :
    Moved codec holds disk env duty state (runWarm git state).1 := by
  rw [runWarm]
  split
  · exact .refl
  · intro key
    obtain hsame | ⟨nwo, hmem, rfl, hwarm, head, hhead, hcursor⟩ :=
      cursor_warmRepos git state git.warmRepos key
    · exact .inl hsame
    · exact .inr ⟨head, hcursor, .warmed git nwo head haction hgit hmem hhead hwarm⟩

/-- What is stored for the self-analysis duty, if anything, is a position. -/
def Stored (codec : Codec) (disk : Disk) (value : Option String) : Prop :=
  value = none ∨ ∃ cursor, value = some (codec.encode cursor) ∧ Reached disk cursor

theorem moved_runSelfAnalysis (hfiles : Chronological disk.errors)
    (hholds : ∀ repo delta proposals, holds (formatPrompt repo delta proposals) delta)
    {repo : String} {minDeltaTokens : ℕ}
    (haction : duty.action = .selfAnalysis repo minDeltaTokens)
    (hstored : Stored codec disk (state.cursor duty.name)) :
    Moved codec holds disk env duty state
      (runSelfAnalysis codec duty repo minDeltaTokens (disk.sources env) env state).1 := by
  rw [runSelfAnalysis]
  cases hgithub : env.github with
  | none => exact .refl
  | some github =>
      simp only
      obtain hnone | ⟨cursor, hcursor, hreached⟩ := hstored
      · rw [hnone, Option.bind_none, probe]
        cases hend : endOfSources (disk.sources env) with
        | error error => exact .refl
        | ok cursor =>
            exact .setCursor (.primedSources repo minDeltaTokens cursor haction hnone
              (endOfSources_atEnd hfiles hend))
      · rw [hcursor, Option.bind_some, codec.decode_encode]
        cases hprobe : probe (disk.sources env) (some cursor) minDeltaTokens with
        | error error => exact .refl
        | ok decided =>
            cases decided with
            | prime cursor => exact absurd hprobe (probe_ne_prime _ _ _ cursor)
            | closed => exact .refl
            | opened delta next =>
                simp only
                split
                · next proposals count hproposals _ =>
                    split
                    · exact .refl
                    · split
                      · next reply hturn =>
                          exact .setCursor (.analysed repo minDeltaTokens cursor next
                            delta github proposals reply haction hgithub hproposals
                            hcursor
                            (probe_consumes hfiles hreached hprobe) hturn
                            (hholds repo delta proposals))
                      · exact .refl
                · exact .refl

theorem moved_perform (hfiles : Chronological disk.errors)
    (hholds : ∀ repo delta proposals, holds (formatPrompt repo delta proposals) delta)
    (hstored : ∀ repo minDeltaTokens, duty.action = .selfAnalysis repo minDeltaTokens →
      Stored codec disk (state.cursor duty.name)) :
    Moved codec holds disk env duty state
      (perform codec duty (disk.sources env) env state).1 := by
  rw [perform]
  cases haction : duty.action with
  | dispatch input sessionHint => exact moved_dispatch haction
  | selfAnalysis repo minDeltaTokens =>
      exact moved_runSelfAnalysis hfiles hholds haction (hstored _ _ haction)
  | warm =>
      cases hgit : env.git with
      | none => exact .refl
      | some git => exact moved_runWarm haction hgit

theorem lastRun_dispatch (input : String) (sessionHint : Option String) :
    (dispatch duty input sessionHint env state).lastRun = state.lastRun := by
  rw [dispatch]
  cases duty.gate with
  | none =>
      simp only
      split <;> rfl
  | some gate =>
      simp only [probeNewCommits]
      cases env.git with
      | none => rfl
      | some git =>
          simp only
          cases git.remoteHead gate.1 with
          | error error => rfl
          | ok head =>
              simp only
              cases newCommitsDecision (state.cursor duty.name) head with
              | prime => rfl
              | closed => rfl
              | opened cursor =>
                  simp only
                  split <;> rfl

theorem lastRun_warmRepos (git : Git) (state : DutyState) (repos : List String) :
    (warmRepos git state repos).1.lastRun = state.lastRun := by
  induction repos generalizing state with
  | nil => rfl
  | cons nwo repos ih =>
      have hfirst : (warmRepo git state nwo).1.lastRun = state.lastRun := by
        rw [warmRepo]
        cases git.remoteHead nwo with
        | error error => rfl
        | ok head =>
            simp only
            split
            · simp only
              split <;> rfl
            · rfl
      exact (ih _).trans hfirst

theorem lastRun_runSelfAnalysis (repo : String) (minDeltaTokens : ℕ)
    (sources : Sources) :
    (runSelfAnalysis codec duty repo minDeltaTokens sources env state).1.lastRun =
      state.lastRun := by
  rw [runSelfAnalysis]
  split
  · rfl
  · split
    · rfl
    · rfl
    · rfl
    · split
      · split
        · rfl
        · split <;> rfl
      · rfl

theorem lastRun_perform (sources : Sources) :
    (perform codec duty sources env state).1.lastRun = state.lastRun := by
  rw [perform]
  cases duty.action with
  | dispatch input sessionHint => exact lastRun_dispatch input sessionHint
  | selfAnalysis repo minDeltaTokens =>
      exact lastRun_runSelfAnalysis repo minDeltaTokens sources
  | warm =>
      cases env.git with
      | none => rfl
      | some git =>
          simp only [runWarm]
          split
          · rfl
          · exact lastRun_warmRepos git state git.warmRepos

end Run

/-! ### Every run of the scheduler -/

/-- What every step keeps: the files are in order, the duties at hand are configured,
and the self-analysis cursor is a position in the sources. -/
structure Valid (codec : Codec) (config : Config) (world : World) : Prop where
  chronological : Chronological world.disk.errors
  pending : ∀ duty ∈ world.pending, duty ∈ buildDuties config
  stored : Stored codec world.disk (world.state.cursor "self-analysis")

theorem valid_init (codec : Codec) (config : Config) : Valid codec config init where
  chronological := .nil
  pending _ hmem := absurd hmem List.not_mem_nil
  stored := .inl rfl

section System

variable {codec : Codec} {config : Config} {holds : String → Delta → Prop}
  {world : World}

theorem Stored.grow {disk grown : Disk} {value : Option String}
    (hstored : Stored codec disk value)
    (hgrow : ∀ cursor, Reached disk cursor → Reached grown cursor) :
    Stored codec grown value :=
  hstored.imp_right fun ⟨cursor, hvalue, hreached⟩ =>
    ⟨cursor, hvalue, hgrow cursor hreached⟩

/-- A run of a duty is sound. -/
theorem runSound_runOne (hvalid : Valid codec config world)
    (hholds : ∀ repo delta proposals, holds (formatPrompt repo delta proposals) delta)
    {duty : Duty} (hduty : duty ∈ buildDuties config) (env : Env) :
    RunSound codec holds config world.disk env duty world.state
      (runOne codec duty env world.disk world.state).1 where
  lastRun := by
    rw [runOne]
    exact congrArg (Function.update · duty.name (some env.now)) (lastRun_perform _)
  moved := by
    apply moved_perform hvalid.chronological hholds
    intro repo minDeltaTokens haction
    rw [name_of_selfAnalysis hduty haction]
    exact hvalid.stored
  own := by
    intro key value hadvance hkey owner howner hname
    have hcases : key = duty.name := by
      cases hadvance with
      | warmed git nwo head => exact absurd rfl (hkey nwo)
      | _ => rfl
    exact eq_of_name_eq howner hduty (hname.trans hcases)

/-- A trigger names configured duties. -/
theorem mem_of_resolve {duties named : List Duty} {name : Option String}
    (hresolve : resolve duties name = .ok named) {duty : Duty} (hmem : duty ∈ named) :
    duty ∈ duties := by
  rw [resolve.eq_def] at hresolve
  split at hresolve
  · cases hresolve
    exact hmem
  · split at hresolve
    · next found hfound =>
        cases hresolve
        rw [List.mem_singleton.1 hmem]
        exact List.mem_of_find?_eq_some hfound
    · cases hresolve

/-- What a run writes to the journal is written at its end. -/
theorem runOne_disk (codec : Codec) (duty : Duty) (env : Env) (disk : Disk)
    (state : DutyState) :
    (runOne codec duty env disk state).2 = disk ∨
      ∃ text, (runOne codec duty env disk state).2 =
        { disk with journal := some (disk.journal.getD [] ++ text) } := by
  rw [runOne]
  simp only
  split
  · exact .inl rfl
  · exact .inr ⟨_, rfl⟩

/-- After a sound run the self-analysis cursor is still a position. -/
theorem RunSound.stored (hvalid : Valid codec config world) {duty : Duty} {env : Env}
    {next : DutyState} (hduty : duty ∈ buildDuties config)
    (hsound : RunSound codec holds config world.disk env duty world.state next) :
    Stored codec world.disk (next.cursor "self-analysis") := by
  obtain hsame | ⟨value, hvalue, hadvance⟩ := hsound.moved "self-analysis"
  · rw [hsame]
    exact hvalid.stored
  · rw [hvalue]
    generalize hkey : "self-analysis" = key at hadvance
    cases hadvance with
    | primedCommits input sessionHint repo git head haction =>
        obtain ⟨_, _, hanalysis⟩ := selfAnalysis_of_name hduty hkey.symm
        rw [haction] at hanalysis
        cases hanalysis
    | reviewed input sessionHint repo git cursor head reply haction =>
        obtain ⟨_, _, hanalysis⟩ := selfAnalysis_of_name hduty hkey.symm
        rw [haction] at hanalysis
        cases hanalysis
    | warmed git nwo head => exact absurd hkey (ne_warmCursorKey nwo)
    | primedSources repo minDeltaTokens cursor haction hcursor hend =>
        exact .inr ⟨cursor, rfl, hend.reached⟩
    | analysed repo minDeltaTokens cursor next delta github proposals reply haction
        hgithub hproposals hcursor hconsumes =>
        exact .inr ⟨next, rfl, hconsumes.atEnd.reached⟩

theorem valid_step (world : World) (event : Event) (hvalid : Valid codec config world) :
    Valid codec config (step codec config world event) := by
  cases event with
  | write text =>
      exact ⟨hvalid.chronological, hvalid.pending,
        hvalid.stored.grow fun cursor hreached => hreached.write text⟩
  | logError text =>
      exact ⟨hvalid.chronological.logError text, hvalid.pending,
        hvalid.stored.grow fun cursor hreached => hreached.logError text⟩
  | roll name =>
      exact ⟨hvalid.chronological.roll name, hvalid.pending,
        hvalid.stored.grow fun cursor hreached => hreached.roll name⟩
  | tick now =>
      rw [step]
      split
      · refine ⟨hvalid.chronological, fun duty hmem => ?_, hvalid.stored⟩
        exact (List.mem_filter.1 hmem).1
      · exact hvalid
  | trigger name =>
      rw [step]
      split
      · next duties _ hresolve =>
          refine ⟨hvalid.chronological, fun duty hmem => ?_, hvalid.stored⟩
          exact mem_of_resolve hresolve hmem
      · exact hvalid
  | runNext env =>
      rw [step]
      cases hpending : world.pending with
      | nil => exact hvalid
      | cons duty pending =>
          have hmem : ∀ duty' ∈ duty :: pending, duty' ∈ buildDuties config :=
            hpending ▸ hvalid.pending
          rw [List.forall_mem_cons] at hmem
          have hsound : RunSound codec (fun _ _ => True) config world.disk env duty
              world.state (runOne codec duty env world.disk world.state).1 :=
            runSound_runOne hvalid (fun _ _ _ => trivial) hmem.1 env
          have hstored := hsound.stored hvalid hmem.1
          obtain hdisk | ⟨text, hdisk⟩ :=
            runOne_disk codec duty env world.disk world.state
          · simp only [hdisk]
            exact ⟨hvalid.chronological, hmem.2, hstored⟩
          · simp only [hdisk]
            exact ⟨hvalid.chronological, hmem.2,
              hstored.grow fun cursor hreached => hreached.write text⟩

theorem sound_step (hvalid : Valid codec config world)
    (hholds : ∀ repo delta proposals, holds (formatPrompt repo delta proposals) delta)
    (event : Event) : Sound codec holds config world event := by
  cases event with
  | runNext env =>
      simp only [Sound, step]
      cases hpending : world.pending with
      | nil => rfl
      | cons duty pending =>
          have hduty : duty ∈ buildDuties config :=
            hvalid.pending duty (hpending ▸ List.mem_cons_self)
          exact runSound_runOne hvalid hholds hduty env
  | tick now =>
      simp only [Sound, step]
      split <;> rfl
  | trigger name =>
      simp only [Sound, step]
      split <;> rfl
  | _ => rfl

end System

/-! ### What the prompt holds -/

theorem includes_promptSection (title : String) (text : List Char) :
    Text.Includes (promptSection title text)
      (String.ofList (Journal.truncateOutput text sectionMaxBytes)) := by
  cases text with
  | nil => exact Text.includes_empty _
  | cons symbol text =>
      have hne : ¬ (symbol :: text).isEmpty = true := by simp
      rw [promptSection, if_neg hne]
      exact (Text.Includes.last _ _).append_right _

/-- Every prompt holds the capped sections. -/
theorem holdsSections_formatPrompt (repo : String) (delta : Delta)
    (proposals : List String) :
    HoldsSections (formatPrompt repo delta proposals) delta := by
  have hnotify := includes_promptSection "Problem reports from your journal:"
    delta.notify
  have herrors := includes_promptSection "Error events (WARN/ERROR):" delta.errors
  simp only [HoldsSections, formatPrompt, String.append_assoc]
  constructor
  · exact (hnotify.append_right _).append_left _
  · exact ((herrors.append_right _).append_left _).append_left _

/-- In every run of the scheduler each cursor moves only for a reason, and every run of
a duty advances its last run. -/
theorem cursors_run (codec : Codec) (config : Config) (events : List Event) :
    Run.Meets (step codec config) (Sound codec HoldsSections config) init events := by
  have hstep : ∀ world event, Valid codec config world → True →
      Valid codec config (step codec config world event) ∧
        Sound codec HoldsSections config world event := by
    intro world event hvalid _
    exact ⟨valid_step world event hvalid,
      sound_step hvalid holdsSections_formatPrompt event⟩
  have hany : Run.Meets (step codec config) (fun _ _ => True) init events :=
    Run.meets_of_forall (fun _ _ _ => trivial) _
  exact Run.meets_of_invariant hstep (valid_init codec config) hany

/-! ### A delta that does not fit into the prompt -/

/-- Only the self-analysis duty, without a threshold. -/
def analysing : Config where
  distill := .every 3600
  prompts := []
  selfAnalysis := some ⟨"o/r", .every 86400, 0⟩
  warm := .every 3600
  warmConfigured := false
  unshadowed := List.forall_mem_nil _
  distinct := List.nodup_nil

def analysingDuty : Duty :=
  ⟨"self-analysis", .selfAnalysis "o/r" 0, .every 86400, none⟩

/-- Every turn succeeds, and there are no proposals. -/
def quietEnv : Env where
  now := 0
  git := none
  github := some ⟨fun _ => .ok [], fun _ => .ok 0⟩
  turn := fun _ => .ok ""
  journalError := none
  errorsDirError := none
  errorFileError := fun _ => none

/-- The duty is primed, an error is logged, and the duty is triggered again. -/
def primedThenError (text : List Char) : List Event :=
  [.trigger (some "self-analysis"), .runNext quietEnv, .roll "a", .logError text,
    .trigger (some "self-analysis")]

theorem primed_quiet (codec : Codec) :
    runOne codec analysingDuty quietEnv ⟨none, []⟩ .new =
      ((DutyState.new.setCursor "self-analysis" (codec.encode ⟨0, none, 0⟩)).recordRun
        "self-analysis" 0, ⟨none, []⟩) := by
  have hend : endOfSources (Disk.sources ⟨none, []⟩ quietEnv) = .ok ⟨0, none, 0⟩ := by
    rw [sources_eq rfl rfl, endOfSources, errorFiles_listed quietEnv .nil]
    rfl
  have hprobe : probe (Disk.sources ⟨none, []⟩ quietEnv) none 0 =
      .ok (.prime ⟨0, none, 0⟩) := by
    rw [probe, hend]
    rfl
  have hrun : runSelfAnalysis codec analysingDuty "o/r" 0
      (Disk.sources ⟨none, []⟩ quietEnv) quietEnv .new =
        (DutyState.new.setCursor "self-analysis" (codec.encode ⟨0, none, 0⟩), none) := by
    have hcursor : (DutyState.new.cursor analysingDuty.name).bind codec.decode = none :=
      rfl
    rw [runSelfAnalysis, hcursor, hprobe]
    rfl
  have hperform : perform codec analysingDuty (Disk.sources ⟨none, []⟩ quietEnv)
      quietEnv .new = _ := hrun
  rw [runOne, hperform]
  rfl

theorem run_primedThenError (codec : Codec) (text : List Char) :
    Run.run (step codec analysing) init (primedThenError text) =
      ⟨(DutyState.new.setCursor "self-analysis" (codec.encode ⟨0, none, 0⟩)).recordRun
        "self-analysis" 0, [analysingDuty], ⟨none, [("a", text)]⟩⟩ := by
  have htrigger : ∀ state disk, step codec analysing ⟨state, [], disk⟩
      (.trigger (some "self-analysis")) = ⟨state, [analysingDuty], disk⟩ :=
    fun _ _ => rfl
  have hrun : step codec analysing ⟨.new, [analysingDuty], ⟨none, []⟩⟩
      (.runNext quietEnv) =
        ⟨(DutyState.new.setCursor "self-analysis"
          (codec.encode ⟨0, none, 0⟩)).recordRun "self-analysis" 0, [], ⟨none, []⟩⟩ := by
    simp only [step, primed_quiet]
  rw [primedThenError, Run.run_cons, init, htrigger, Run.run_cons, hrun]
  rfl

/-- The duty then moves its cursor to the end of the error. -/
theorem cursor_runOne_error (codec : Codec) (text : List Char) (state : DutyState)
    (hcursor : state.cursor "self-analysis" = some (codec.encode ⟨0, none, 0⟩)) :
    (runOne codec analysingDuty quietEnv ⟨none, [("a", text)]⟩ state).1.cursor
        "self-analysis" =
      some (codec.encode ⟨0, some "a", ByteText.size text⟩) := by
  have htail : tail? text 0 = some text := tail?_append [] text
  have herrors : errorsDelta (.ok (some (listed quietEnv [("a", text)]))) none 0 =
      .ok (text, some "a", ByteText.size text) := by
    rw [errorsDelta, errorFiles_listed quietEnv (List.pairwise_singleton ..)]
    change Except.ok ([] ++ (tail? text 0).getD [], some "a", ByteText.size text) = _
    rw [htail]
    rfl
  have hprobe : probe (Disk.sources ⟨none, [("a", text)]⟩ quietEnv)
      (some ⟨0, none, 0⟩) 0 =
        .ok (.opened ⟨[], text⟩ ⟨0, some "a", ByteText.size text⟩) := by
    rw [sources_eq rfl rfl, probe]
    simp only [herrors]
    rfl
  have hrun : runSelfAnalysis codec analysingDuty "o/r" 0
      (Disk.sources ⟨none, [("a", text)]⟩ quietEnv) quietEnv state =
        (state.setCursor "self-analysis"
          (codec.encode ⟨0, some "a", ByteText.size text⟩), none) := by
    have hread : (state.cursor analysingDuty.name).bind codec.decode =
        some ⟨0, none, 0⟩ := by
      rw [analysingDuty, hcursor, Option.bind_some, codec.decode_encode]
    rw [runSelfAnalysis, hread, hprobe]
    rfl
  have hperform : perform codec analysingDuty
      (Disk.sources ⟨none, [("a", text)]⟩ quietEnv) quietEnv state = _ := hrun
  simp only [runOne, hperform, DutyState.cursor_recordRun]
  exact state.cursor_setCursor_self ..

theorem leadingSymbols_replicate (symbol : Char) (hsize : symbol.utf8Size = 1)
    (bytes count : ℕ) :
    Text.leadingSymbols bytes (List.replicate count symbol) =
      List.replicate (min bytes count) symbol := by
  induction count generalizing bytes with
  | zero => simp [Text.leadingSymbols]
  | succ count ih =>
      rw [List.replicate_succ, Text.leadingSymbols]
      cases bytes with
      | zero => simp [hsize]
      | succ bytes =>
          rw [if_pos (by omega), hsize, ih, Nat.add_sub_cancel, Nat.succ_min_succ,
            List.replicate_succ]

/-! The bytes and symbols of a long error. -/

theorem size_replicate (count : ℕ) (symbol : Char) (hsize : symbol.utf8Size = 1) :
    ByteText.size (List.replicate count symbol) = count := by
  induction count with
  | zero => rfl
  | succ count ih => rw [List.replicate_succ, ByteText.size_cons, hsize, ih, Nat.add_comm]

theorem count_repr (value : ℕ) : (toString value).toList.count 'Z' = 0 := by
  rw [List.count_eq_zero]
  intro hmem
  exact absurd (Text.isDigit_of_repr hmem) (by decide)

/-- How often the prompt itself has a symbol, without any symptom. -/
def promptCount (symbol : Char) : ℕ :=
  (formatPrompt "o/r" ⟨[], []⟩ []).toList.count symbol

/-- An error event that does not fit into its section, and that the rest of the prompt
cannot make up for. -/
def longError : List Char := List.replicate (sectionMaxBytes + promptCount 'Z' + 1) 'Z'

theorem count_truncate_longError :
    (Journal.truncateOutput longError sectionMaxBytes).count 'Z' = sectionMaxBytes := by
  have hsize : (String.ofList longError).utf8ByteSize =
      sectionMaxBytes + promptCount 'Z' + 1 := by
    rw [utf8ByteSize_ofList, longError, size_replicate _ _ (by decide)]
  have hlong : ¬ sectionMaxBytes + promptCount 'Z' + 1 ≤ sectionMaxBytes := by omega
  have hkept : Text.leading (String.ofList longError) sectionMaxBytes =
      String.ofList (List.replicate sectionMaxBytes 'Z') := by
    rw [Text.leading, String.toList_ofList, longError,
      leadingSymbols_replicate _ (by decide), Nat.min_eq_left (by omega)]
  have hdots : "...\n[truncated ".toList.count 'Z' = 0 := by decide
  have hbytes : " bytes]".toList.count 'Z' = 0 := by decide
  rw [Journal.truncateOutput, Agent.truncateOutput, hsize, if_neg hlong, hkept]
  simp only [String.toList_append, String.toList_ofList, List.count_append, hdots, hbytes,
    count_repr, List.count_replicate_self, Nat.add_zero]

theorem count_formatPrompt (errors : List Char) :
    (formatPrompt "o/r" ⟨[], errors⟩ []).toList.count 'Z' ≤
      promptCount 'Z' + (Journal.truncateOutput errors sectionMaxBytes).count 'Z' := by
  have hsection : (promptSection "Error events (WARN/ERROR):" errors).toList.count 'Z' ≤
      (Journal.truncateOutput errors sectionMaxBytes).count 'Z' := by
    rw [promptSection]
    split
    · exact Nat.zero_le _
    · have htitle : ("\n" ++ "Error events (WARN/ERROR):" ++ "\n").toList.count 'Z' = 0 := by
        decide
      have hend : "\n".toList.count 'Z' = 0 := by decide
      rw [String.toList_append, String.toList_append, String.toList_ofList,
        List.count_append, List.count_append, htitle, hend, Nat.zero_add, Nat.add_zero]
  have hempty : (promptSection "Error events (WARN/ERROR):" []).toList = [] := rfl
  rw [promptCount, formatPrompt, formatPrompt]
  generalize promptIntro = start
  generalize promptContract "o/r" = contract
  generalize promptProposals [] = proposals
  generalize promptSection "Problem reports from your journal:" [] = notify
  rw [String.toList_append, String.toList_append, String.toList_append,
    String.toList_append, List.count_append, List.count_append, List.count_append,
    List.count_append, String.toList_append, String.toList_append, String.toList_append,
    String.toList_append, List.count_append, List.count_append, List.count_append,
    List.count_append]
  simp only [hempty, List.count_nil]
  omega

/-- A prompt about the long error does not hold all of it. -/
theorem not_includes_longError {errors : List Char} (herrors : errors = longError) :
    ¬ Text.Includes (formatPrompt "o/r" ⟨[], errors⟩ []) (String.ofList errors) := by
  intro ⟨before, after, hprompt⟩
  have hle := count_formatPrompt errors
  have hlong : errors.count 'Z' = sectionMaxBytes + promptCount 'Z' + 1 := by
    rw [herrors]
    exact List.count_replicate_self
  have hkept : (Journal.truncateOutput errors sectionMaxBytes).count 'Z' =
      sectionMaxBytes := by
    rw [herrors]
    exact count_truncate_longError
  rw [hprompt, hkept, String.toList_append, String.toList_append,
    String.toList_ofList, List.count_append, List.count_append, hlong] at hle
  omega

theorem Codec.encode_injective (codec : Codec) : Function.Injective codec.encode := by
  intro first second heq
  have hdecode := congrArg codec.decode heq
  rw [codec.decode_encode, codec.decode_encode] at hdecode
  exact Option.some.inj hdecode

/-- Only a prompt with all of the long error would be a reason to move past it. -/
theorem not_advance_longError {codec : Codec} {state : DutyState}
    (hcursor : state.cursor "self-analysis" = some (codec.encode ⟨0, none, 0⟩))
    {key value : String} :
    ¬ Advance codec HoldsDelta ⟨none, [("a", longError)]⟩ quietEnv analysingDuty state
      key value := by
  intro hadvance
  cases hadvance with
  | primedCommits input sessionHint repo git head haction => cases haction
  | reviewed input sessionHint repo git cursor head reply haction => cases haction
  | warmed git nwo head haction => cases haction
  | primedSources repo minDeltaTokens cursor haction hnone =>
      cases hcursor.symm.trans hnone
  | analysed repo minDeltaTokens cursor next delta github proposals reply haction
      hgithub hproposals hstored hconsumes hturn hprompt =>
      cases haction
      cases hgithub
      cases hproposals
      have hstart : cursor = ⟨0, none, 0⟩ :=
        codec.encode_injective (Option.some.inj (hstored.symm.trans hcursor))
      obtain ⟨readJournal, newJournal, readErrors, newErrors, hsplits, rfl, _⟩ :=
        hconsumes.exactly
      rw [hstart] at hsplits
      have hjournal := (List.append_eq_nil_iff.1 hsplits.journal.1.symm).2
      have herrors : newErrors = longError := by
        rw [hsplits.errors.2, teeText_cons, teeText_nil, List.append_nil]
      have hnotify : notifyLines [] = [] := rfl
      rw [hjournal, hnotify] at hprompt
      exact not_includes_longError herrors hprompt.2

/-- A sound run about an error, primed before, has a reason for its move. -/
theorem advance_of_sound {codec : Codec} {text : List Char} {state : DutyState}
    (hcursor : state.cursor "self-analysis" = some (codec.encode ⟨0, none, 0⟩))
    (hsound : Sound codec HoldsDelta analysing
      ⟨state, [analysingDuty], ⟨none, [("a", text)]⟩⟩ (.runNext quietEnv)) :
    ∃ value, Advance codec HoldsDelta ⟨none, [("a", text)]⟩ quietEnv analysingDuty state
      "self-analysis" value := by
  have hnext := cursor_runOne_error codec text state hcursor
  have hmoved : Moved codec HoldsDelta ⟨none, [("a", text)]⟩ quietEnv analysingDuty state
      (runOne codec analysingDuty quietEnv ⟨none, [("a", text)]⟩ state).1 := hsound.moved
  obtain hsame | ⟨value, _, hadvance⟩ := hmoved "self-analysis"
  · rw [hnext, hcursor] at hsame
    have hfile := congrArg Cursor.errorsFile
      (codec.encode_injective (Option.some.inj hsame))
    cases hfile
  · exact ⟨value, hadvance⟩

theorem advance_of_run {codec : Codec} {text : List Char}
    (hmeets : Run.Meets (step codec analysing) (Sound codec HoldsDelta analysing) init
      (primedThenError text ++ [.runNext quietEnv])) :
    ∃ state, state.cursor "self-analysis" = some (codec.encode ⟨0, none, 0⟩) ∧
      ∃ value, Advance codec HoldsDelta ⟨none, [("a", text)]⟩ quietEnv analysingDuty state
        "self-analysis" value := by
  have hsound := hmeets.at_event
  rw [run_primedThenError] at hsound
  have hstored : ((DutyState.new.setCursor "self-analysis"
      (codec.encode ⟨0, none, 0⟩)).recordRun "self-analysis" 0).cursor
        "self-analysis" = some (codec.encode ⟨0, none, 0⟩) := by
    rw [DutyState.cursor_recordRun]
    exact DutyState.new.cursor_setCursor_self _ _
  exact ⟨_, hstored, advance_of_sound hstored hsound⟩

/-- It is not so that the prompt of a turn holds all that its cursor moves past. -/
theorem prompt_cut_short :
    ¬ ∀ (codec : Codec) (config : Config) (events : List Event),
      Run.Meets (step codec config) (Sound codec HoldsDelta config) init events := by
  intro hall
  obtain ⟨state, hstored, value, hadvance⟩ := advance_of_run (hall jsonCodec analysing _)
  exact not_advance_longError hstored hadvance

end Kitaebot.Scheduler
