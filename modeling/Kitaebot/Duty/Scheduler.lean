import Mathlib.Logic.Function.Basic
import Kitaebot.Duty.SelfAnalysis

/-!
# The duty scheduler

Duties run one after another, when they are due or when the operator triggers them.
A gate decides whether a run gets a turn; its cursor is kept in the persisted state,
under the duty's name or, for the warm duty, under a key for each repo.
-/

namespace Kitaebot.Scheduler

open Journal SelfAnalysis

/-! ### Schedules and the persisted state -/

/-- When a duty recurs, in seconds. -/
inductive Schedule where
  | every (period : ℕ)
  | daily (timeOfDay : ℕ)
  deriving DecidableEq, Repr

/-- The epoch at which the duty is next due; without a recorded run, now. -/
def Schedule.nextDue (schedule : Schedule) (lastRun : Option ℕ) (now : ℕ) : ℕ :=
  match lastRun with
  | none => now
  | some last =>
      match schedule with
      | .every period => last + period
      | .daily timeOfDay =>
          let today := last - last % 86400 + timeOfDay
          if today > last then today else today + 86400

/-- Per-duty last-run epochs and gate cursors. -/
structure DutyState where
  lastRun : String → Option ℕ
  cursor : String → Option String

namespace DutyState

def new : DutyState := ⟨fun _ => none, fun _ => none⟩

def recordRun (state : DutyState) (duty : String) (epoch : ℕ) : DutyState :=
  { state with lastRun := Function.update state.lastRun duty (some epoch) }

def setCursor (state : DutyState) (key value : String) : DutyState :=
  { state with cursor := Function.update state.cursor key (some value) }

@[simp]
theorem lastRun_setCursor (state : DutyState) (key value : String) :
    (state.setCursor key value).lastRun = state.lastRun := rfl

@[simp]
theorem cursor_recordRun (state : DutyState) (duty : String) (epoch : ℕ) :
    (state.recordRun duty epoch).cursor = state.cursor := rfl

theorem cursor_setCursor_self (state : DutyState) (key value : String) :
    (state.setCursor key value).cursor key = some value :=
  Function.update_self ..

theorem cursor_setCursor_of_ne (state : DutyState) {key other : String} (value : String)
    (hne : other ≠ key) : (state.setCursor key value).cursor other = state.cursor other :=
  Function.update_of_ne hne ..

end DutyState

/-! ### Duties -/

/-- What a due duty does. -/
inductive Action where
  | dispatch (input : String) (sessionHint : Option String)
  | selfAnalysis (repo : String) (minDeltaTokens : ℕ)
  | warm
  deriving DecidableEq, Repr

/-- A mechanical pre-dispatch check. -/
inductive Gate where
  | newCommits (repo : String)
  deriving DecidableEq, Repr

structure Duty where
  name : String
  action : Action
  schedule : Schedule
  gate : Option Gate
  deriving DecidableEq, Repr

/-- What a new-commits probe decides. -/
inductive NewCommits where
  | prime
  | closed
  | opened (cursor : String)
  deriving DecidableEq, Repr

def newCommitsDecision (cursor : Option String) (head : String) : NewCommits :=
  match cursor with
  | none => .prime
  | some cursor => if cursor = head then .closed else .opened cursor

/-- One operator-defined prompt duty. -/
structure PromptDuty where
  name : String
  repo : String
  prompt : String
  schedule : Schedule
  gated : Bool
  deriving DecidableEq, Repr

/-- The self-analysis duty's settings. -/
structure SelfAnalysisDuty where
  repo : String
  schedule : Schedule
  minDeltaTokens : ℕ
  deriving DecidableEq, Repr

/-- The settings of the duties, as far as their validation constrains the names. -/
structure Config where
  distill : Schedule
  prompts : List PromptDuty
  selfAnalysis : Option SelfAnalysisDuty
  warm : Schedule
  warmConfigured : Bool
  unshadowed : ∀ prompt ∈ prompts,
    prompt.name ≠ "distill" ∧ prompt.name ≠ "warm" ∧ prompt.name ≠ "self-analysis"
  distinct : (prompts.map PromptDuty.name).Nodup

/-- Built-in and operator-defined duties; the warm duty comes last. -/
def buildDuties (config : Config) : List Duty :=
  ⟨"distill", .dispatch "/duty distill" none, config.distill, none⟩ ::
    (config.prompts.map fun prompt =>
      ⟨prompt.name, .dispatch prompt.prompt (some prompt.repo), prompt.schedule,
        if prompt.gated then some (.newCommits prompt.repo) else none⟩) ++
    (config.selfAnalysis.map fun duty =>
      (⟨"self-analysis", .selfAnalysis duty.repo duty.minDeltaTokens, duty.schedule,
        none⟩ : Duty)).toList ++
    if config.warmConfigured then [⟨"warm", .warm, config.warm, none⟩] else []

/-- Duties due now, in declaration order. -/
def due (duties : List Duty) (state : DutyState) (now : ℕ) : List Duty :=
  duties.filter fun duty =>
    duty.schedule.nextDue (state.lastRun duty.name) now ≤ now

/-- Duties a trigger names: all of them, or one by name. -/
def resolve (duties : List Duty) (name : Option String) : Except String (List Duty) :=
  match name with
  | none => .ok duties
  | some name =>
      match duties.find? fun duty => duty.name == name with
      | some duty => .ok [duty]
      | none => .error ("unknown duty " ++ name.quote ++ "; known: " ++
          ", ".intercalate (duties.map Duty.name))

/-! ### The surroundings of a run -/

/-- What git answers during one run. -/
structure Git where
  remoteHead : String → Except String String
  warmRepos : List String
  checkoutExists : String → Bool
  prepareAndWarm : String → String
  prepare : String → Except String String

/-- What GitHub answers during one run. -/
structure Github where
  openProposals : String → Except String (List String)
  botProposalCount : String → Except String ℕ

/-- What one run meets: the clock at its end, its clients, how the actor answers a
turn, and which sources cannot be read. -/
structure Env where
  now : ℕ
  git : Option Git
  github : Option Github
  turn : String → Except String String
  journalError : Option String
  errorsDirError : Option String
  errorFileError : String → Option String

/-- The cursor of the self-analysis duty as it is stored: a text that reads back. -/
structure Codec where
  encode : Cursor → String
  decode : String → Option Cursor
  decode_encode : ∀ cursor, decode (encode cursor) = some cursor

/-- The journal and the error files on disk. -/
structure Disk where
  journal : Option (List Char)
  errors : List (String × List Char)

/-- The sources as a run reads them. -/
def Disk.sources (disk : Disk) (env : Env) : Sources where
  journal :=
    match env.journalError with
    | some error => .error error
    | none => .ok disk.journal
  errorsDir :=
    match env.errorsDirError with
    | some error => .error error
    | none => .ok (some (disk.errors.map fun file =>
        ⟨file.1, match env.errorFileError file.1 with
          | some error => .error error
          | none => .ok file.2⟩))

/-! ### One duty run -/

/-- Guidance when no fresh checkout could be prepared for the agent. -/
def cloneYourself : String := "Clone or update the repo yourself before branching."

def checkoutNote (git : Option Git) (repo : String) : String :=
  match git with
  | none => cloneYourself
  | some git =>
      match git.prepare repo with
      | .ok note => note
      | .error _ => cloneYourself

/-- The input of a turn past an open gate. -/
def commitsInput (input cursor head : String) : String :=
  input ++ "\n\n[new commits: " ++ cursor ++ ".." ++ head ++ "]"

/-- Probe the new-commits gate: the dispatch input and the cursor to advance, if
anything should run. -/
def probeNewCommits (duty : Duty) (input repo : String) (git : Option Git)
    (state : DutyState) : Option (String × Option String) × DutyState :=
  match git with
  | none => (none, state)
  | some git =>
      match git.remoteHead repo with
      | .error _ => (none, state)
      | .ok head =>
          match newCommitsDecision (state.cursor duty.name) head with
          | .prime => (none, state.setCursor duty.name head)
          | .closed => (none, state)
          | .opened cursor => (some (commitsInput input cursor head, some head), state)

/-- The input of a turn with the note about its checkout. -/
def withNote (env : Env) (sessionHint : Option String) (input : String) : String :=
  match sessionHint with
  | some repo => input ++ "\n\n" ++ checkoutNote env.git repo
  | none => input

/-- Gate-check and send one dispatch duty through the actor. -/
def dispatch (duty : Duty) (input : String) (sessionHint : Option String) (env : Env)
    (state : DutyState) : DutyState :=
  let (toSend, state) :=
    match duty.gate with
    | none => (some (input, none), state)
    | some (.newCommits repo) => probeNewCommits duty input repo env.git state
  match toSend with
  | none => state
  | some (input, newCursor) =>
      match env.turn (withNote env sessionHint input), newCursor with
      | .ok _, some head => state.setCursor duty.name head
      | _, _ => state

/-- The note in the journal when the proposal cap is reached. -/
def capReached (repo : String) (count : ℕ) : String :=
  "skipped: proposal cap reached (" ++ toString count ++ " bot-authored on " ++ repo ++
    ")"

/-- Run one self-analysis pass: its state, and what it records in the journal. -/
def runSelfAnalysis (codec : Codec) (duty : Duty) (repo : String)
    (minDeltaTokens : ℕ) (sources : Sources) (env : Env) (state : DutyState) :
    DutyState × Option String :=
  match env.github with
  | none => (state, none)
  | some github =>
      match probe sources ((state.cursor duty.name).bind codec.decode)
        minDeltaTokens with
      | .error _ => (state, none)
      | .ok (.prime cursor) =>
          (state.setCursor duty.name (codec.encode cursor), none)
      | .ok .closed => (state, none)
      | .ok (.opened delta next) =>
          match github.openProposals repo, github.botProposalCount repo with
          | .ok proposals, .ok count =>
              if proposalCap ≤ count then (state, some (capReached repo count))
              else
                match env.turn (formatPrompt repo delta proposals) with
                | .ok _ => (state.setCursor duty.name (codec.encode next), none)
                | .error _ => (state, none)
          | _, _ => (state, none)

/-- Per-repo cursor key for the warm gate. -/
def warmCursorKey (nwo : String) : String := "warm/" ++ nwo

/-- Warm one repo if it is due: its line in the summary. -/
def warmRepo (git : Git) (state : DutyState) (nwo : String) : DutyState × String :=
  let key := warmCursorKey nwo
  let cursor := state.cursor key
  match git.remoteHead nwo with
  | .error _ => (state, nwo ++ ": skipped (ls-remote failed)")
  | .ok head =>
      if cursor.isNone || !git.checkoutExists nwo || cursor != some head then
        let status := git.prepareAndWarm nwo
        (if status = "warm" then state.setCursor key head else state,
          nwo ++ ": " ++ status)
      else (state, nwo ++ ": skipped (no new commits)")

def warmRepos (git : Git) : DutyState → List String → DutyState × List String
  | state, [] => (state, [])
  | state, nwo :: repos =>
      let (state, line) := warmRepo git state nwo
      let (state, lines) := warmRepos git state repos
      (state, line :: lines)

/-- Run the warm duty with per-repo gating. -/
def runWarm (git : Git) (state : DutyState) : DutyState × String :=
  if git.warmRepos.isEmpty then (state, "no warm commands configured")
  else
    let (state, lines) := warmRepos git state git.warmRepos
    (state, "; ".intercalate lines)

/-- What the duty does, before its run is recorded. -/
def perform (codec : Codec) (duty : Duty) (sources : Sources) (env : Env)
    (state : DutyState) : DutyState × Option String :=
  match duty.action with
  | .dispatch input sessionHint => (dispatch duty input sessionHint env state, none)
  | .selfAnalysis repo minDeltaTokens =>
      runSelfAnalysis codec duty repo minDeltaTokens sources env state
  | .warm =>
      match env.git with
      | none => (state, some "skipped: no GitCli")
      | some git =>
          let (state, outcome) := runWarm git state
          (state, some outcome)

/-- Journal a mechanical duty's outcome. -/
def record (disk : Disk) (env : Env) (name outcome : String) : Disk :=
  { disk with
    journal := journal disk.journal
      ⟨env.now, "duty".toList, (name ++ ": " ++ outcome).toList⟩ }

/-- One duty run; the last run advances whatever its outcome. -/
def runOne (codec : Codec) (duty : Duty) (env : Env) (disk : Disk)
    (state : DutyState) : DutyState × Disk :=
  let (state, outcome) := perform codec duty (disk.sources env) env state
  (state.recordRun duty.name env.now,
    match outcome with
    | none => disk
    | some outcome => record disk env duty.name outcome)

/-! ### The scheduler loop -/

/-- The scheduler between two duty runs, with the duties it is about to run. -/
structure World where
  state : DutyState
  pending : List Duty
  disk : Disk

def init : World := ⟨.new, [], ⟨none, []⟩⟩

/-- What happens next: the sources grow, a tick or an operator's trigger picks the
duties to run, or the next of them runs. -/
inductive Event where
  | write (text : List Char)
  | logError (text : List Char)
  | roll (name : String)
  | tick (now : ℕ)
  | trigger (name : Option String)
  | runNext (env : Env)

/-- An error event goes to the newest file. -/
def logError (text : List Char) : List (String × List Char) → List (String × List Char)
  | [] => []
  | [(name, content)] => [(name, content ++ text)]
  | file :: files => file :: logError text files

/-- A new file of the tee, whose name is later than those before it. -/
def roll (name : String) (files : List (String × List Char)) :
    List (String × List Char) :=
  if files.all fun file => file.1 < name then files ++ [(name, [])] else files

def step (codec : Codec) (config : Config) (world : World) : Event → World
  | .write text =>
      { world with
        disk := { world.disk with journal := some (world.disk.journal.getD [] ++ text) } }
  | .logError text =>
      { world with
        disk := { world.disk with errors := logError text world.disk.errors } }
  | .roll name =>
      { world with disk := { world.disk with errors := roll name world.disk.errors } }
  | .tick now =>
      match world.pending with
      | [] => { world with pending := due (buildDuties config) world.state now }
      | _ => world
  | .trigger name =>
      match world.pending, resolve (buildDuties config) name with
      | [], .ok duties => { world with pending := duties }
      | _, _ => world
  | .runNext env =>
      match world.pending with
      | [] => world
      | duty :: pending =>
          let (state, disk) := runOne codec duty env world.disk world.state
          ⟨state, pending, disk⟩

end Kitaebot.Scheduler
