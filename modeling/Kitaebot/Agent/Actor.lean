import Kitaebot.Agent.TurnLoop

/-!
# The actor

The actor handles one message after the other: it picks the provider of the turn, routes
the turn to the session the envelope asks for, and goes back to the session that was
active.  The engine and everything a turn touches are one world of an arbitrary type;
the rows of armed retries are kept next to it.  Alerts, the journal and the usage ledger
are left out.
-/

namespace Kitaebot.Agent

/-! ### Envelopes -/

/-- Which side of a pull request the bot is on. -/
inductive GitHubRole where
  | author
  | contributor
  | reviewer
  deriving DecidableEq, Repr

/-- Which channel originated a message. -/
inductive ChannelSource where
  | duty (duty : String)
  | gitHub (prNumber : ℕ) (repo : String) (role : GitHubRole)
  | gitHubIssue (issue : String)
  | linear (issue : String)
  | socket
  | telegram
  deriving DecidableEq, Repr

def ChannelSource.display : ChannelSource → String
  | duty _ => "Duty"
  | gitHub prNumber _ _ => "GitHub PR #" ++ toString prNumber
  | gitHubIssue issue => "GitHub issue " ++ issue
  | linear issue => "Linear " ++ issue
  | socket => "Socket"
  | telegram => "Telegram"

/-- The dispatch identity a turn is attributed to. -/
structure TaskKey where
  key : String
  deriving DecidableEq, Repr

def TaskKey.forSource : ChannelSource → TaskKey
  | .duty duty => ⟨"duty:" ++ duty⟩
  | .gitHub prNumber repo _ => ⟨"pr:" ++ repo ++ "#" ++ toString prNumber⟩
  | .gitHubIssue issue => ⟨"issue:" ++ issue⟩
  | .linear issue => ⟨"linear:" ++ issue⟩
  | .socket => ⟨"chat:socket"⟩
  | .telegram => ⟨"chat:telegram"⟩

/-- Which root provider serves a turn. -/
inductive TurnRole where
  | default
  | planner
  deriving DecidableEq, Repr

/-- A message with the session it asks for, if it asks for one. -/
structure InputEnvelope where
  source : ChannelSource
  text : String
  sessionHint : Option String
  role : TurnRole
  deriving DecidableEq, Repr

def policyHaltMsg (reasons : List String) : String :=
  "I attempted to use a blocked operation multiple times. " ++
    "The turn was halted automatically." ++
    (if reasons.isEmpty then "" else " Blocked: " ++ "; ".intercalate reasons) ++
    " Please advise how to proceed."

def toolHaltMsg (tool args errorClass : String) (count : ℕ) : String :=
  "A tool call failed identically " ++ toString count ++ " times this turn. The failure " ++
    "is deterministic — retrying will not help. Tool: " ++ tool ++ ", args: " ++ args ++
    ", error class: " ++ errorClass ++ ". Please advise how to proceed."

/-- The outcome as user-facing text. -/
def TurnOutput.intoText : TurnOutput → String
  | .text content => content
  | .policyHalt reasons => policyHaltMsg reasons
  | .toolHalt tool args errorClass count => toolHaltMsg tool args errorClass count

/-! ### Armed retries -/

/-- The provider tier selected for a root turn. -/
inductive ProviderTier where
  | default
  | retry
  deriving DecidableEq, Repr

/-- What a completed root turn does to the retry state of its task. -/
inductive Transition where
  | armed
  | cleared
  | exhausted
  deriving DecidableEq, Repr

/-- The rows of `execution_escalations`, whose primary key is the task. -/
structure ExecutionEscalations where
  tasks : List TaskKey
  nodup : tasks.Nodup

namespace ExecutionEscalations

def empty : ExecutionEscalations := ⟨[], List.nodup_nil⟩

/-- The configured retry provider comes only after one capped turn. -/
def tier (escalations : ExecutionEscalations) (task : TaskKey) : ProviderTier :=
  if task ∈ escalations.tasks then .retry else .default

def insert (escalations : ExecutionEscalations) (task : TaskKey) : ExecutionEscalations :=
  ⟨escalations.tasks.insert task, escalations.nodup.insert⟩

def delete (escalations : ExecutionEscalations) (task : TaskKey) : ExecutionEscalations :=
  ⟨escalations.tasks.filter (· ≠ task), escalations.nodup.filter _⟩

/-- Arm a retry after the first cap; clear it after every other result. -/
def record (escalations : ExecutionEscalations) (task : TaskKey) :
    ProviderTier → Bool → Transition × ExecutionEscalations
  | .default, true => (.armed, escalations.insert task)
  | .retry, true => (.exhausted, escalations.delete task)
  | _, false => (.cleared, escalations.delete task)

end ExecutionEscalations

/-! ### The world of the actor -/

/-- The context engine as the actor drives it. -/
structure Engine (World : Type) where
  activeSession : World → String
  /-- Save the active session and load another. -/
  switchSession : String → World → Except String Unit × World
  save : World → Except String Unit × World

/-- The providers of the root turns. -/
inductive RootProvider where
  | baseProvider
  | plannerProvider
  | executionRetryProvider
  deriving DecidableEq, Repr

/-- An actor with its engine, the turns it runs, and whether an error keeps it from
reading the retry state. -/
structure Actor (World : Type) where
  hasRetryProvider : Bool
  engine : Engine World
  turn : RootProvider → String → World → Except Error TurnOutput × World
  loadError : World → Option String

structure ActorState (World : Type) where
  world : World
  escalations : ExecutionEscalations

/-- A turn that ended, with what its own run returned and what is reported of it. -/
structure RanTurn where
  task : TaskKey
  role : TurnRole
  provider : RootProvider
  outcome : Except Error TurnOutput
  reported : Except Error TurnOutput

/-- The reply to a message, the actor after it, and the turn it ran, if it ran one. -/
structure Handled (World : Type) where
  reply : Except String String
  state : ActorState World
  ran : Option RanTurn

/-- The iteration cap ended the turn. -/
def capped : Except Error TurnOutput → Bool
  | .error (.maxIterationsReached _) => true
  | _ => false

def exhaustedNote : String :=
  "\n\nThe configured execution retry tier also exhausted its budget. " ++
    "Human intervention is required before retrying."

/-- The state report with the note at its end. -/
def pushNote : Except Error TurnOutput → Except Error TurnOutput
  | .error (.maxIterationsReached report) =>
      .error (.maxIterationsReached (report ++ exhaustedNote))
  | result => result

section Messages

variable {World : Type} (actor : Actor World)

def escalationTier (role : TurnRole) (task : TaskKey) (state : ActorState World) :
    Except String (Option ProviderTier) :=
  match role with
  | .planner => .ok none
  | .default =>
      if actor.hasRetryProvider then
        match actor.loadError state.world with
        | some error =>
            .error ("Failed to load execution retry state for " ++ task.key ++ ": " ++ error)
        | none => .ok (some (state.escalations.tier task))
      else .ok none

def providerFor (role : TurnRole) (tier : Option ProviderTier) :
    Except String RootProvider :=
  match role, tier with
  | .planner, _ => .ok .plannerProvider
  | .default, none => .ok .baseProvider
  | .default, some .default => .ok .baseProvider
  | .default, some .retry =>
      if actor.hasRetryProvider then .ok .executionRetryProvider
      else .error "Execution retry provider became unavailable"

/-- The retry state after the turn, and what is reported of the turn. -/
def recordEscalation (escalations : ExecutionEscalations) (task : TaskKey)
    (tier : Option ProviderTier) (result : Except Error TurnOutput) :
    ExecutionEscalations × Except Error TurnOutput :=
  match tier with
  | none => (escalations, result)
  | some tier =>
      match escalations.record task tier (capped result) with
      | (.exhausted, escalations) => (escalations, pushNote result)
      | (_, escalations) => (escalations, result)

/-- Go back to the session that was active, or save it where it still is. -/
def finishMessage (original : String) (switched : Bool) (world : World) : World :=
  if switched then (actor.engine.switchSession original world).2
  else (actor.engine.save world).2

/-- Run the turn of a message in the session that is active now. -/
def runMessage (envelope : InputEnvelope) (task : TaskKey) (tier : Option ProviderTier)
    (provider : RootProvider) (original : String) (switched : Bool)
    (state : ActorState World) : Handled World :=
  let tagged := "[" ++ envelope.source.display ++ "]: " ++ envelope.text
  let (outcome, world) := actor.turn provider tagged state.world
  let (escalations, reported) := recordEscalation state.escalations task tier outcome
  let world := finishMessage actor original switched world
  { reply := match reported with
      | .ok output => .ok output.intoText
      | .error error => .error error.display
    state := ⟨world, escalations⟩
    ran := some ⟨task, envelope.role, provider, outcome, reported⟩ }

/-- Switch sessions for the turn, where the envelope asks for another one. -/
def routeMessage (envelope : InputEnvelope) (task : TaskKey) (tier : Option ProviderTier)
    (provider : RootProvider) (state : ActorState World) : Handled World :=
  let original := actor.engine.activeSession state.world
  let target := envelope.sessionHint.getD original
  if target ≠ original then
    match actor.engine.switchSession target state.world with
    | (.error error, world) =>
        ⟨.error ("Failed to switch session: " ++ error), { state with world }, none⟩
    | (.ok _, world) =>
        runMessage actor envelope task tier provider original true { state with world }
  else runMessage actor envelope task tier provider original false state

/-- Process a free-text message. -/
def handleMessage (envelope : InputEnvelope) (state : ActorState World) : Handled World :=
  let task := TaskKey.forSource envelope.source
  match escalationTier actor envelope.role task state with
  | .error problem => ⟨.error problem, state, none⟩
  | .ok tier =>
      match providerFor actor envelope.role tier with
      | .error problem => ⟨.error problem, state, none⟩
      | .ok provider => routeMessage actor envelope task tier provider state

end Messages

end Kitaebot.Agent
