import Kitaebot.Tools.Direnv

/-!
# The build-cache warmer

One call of `warm` or of `ready` is a task.  A run of the warm command is known
by the watch channel whose sender its runner holds: the run is over when the
sender is dropped.  What runs under one lock is one action, and a call can be
dropped wherever it awaits.  What the devshell and the command come to is part
of the action.
-/

namespace Kitaebot.Tools.Warm

open Kitaebot.Tasks

/-- How the last completed warm for a directory ended. -/
inductive WarmOutcome where
  | failed
  | ready
  deriving DecidableEq, Repr

/-- One hour. -/
def warmTimeoutSecs : ℕ := 3600

/-- The grants of a confined child. -/
inductive Tier where
  | exec
  | git
  deriving DecidableEq, Repr

structure Confinement where
  tier : Tier
  workspace : String
  deriving DecidableEq, Repr

structure SubprocessCall where
  binary : String
  args : List String
  cwd : String
  env : List (String × String)
  timeoutSecs : Option ℕ
  stdin : Option String
  confine : Option Confinement
  deriving DecidableEq, Repr

inductive Entry where
  | done (outcome : WarmOutcome)
  | warming (channel : ℕ)
  deriving DecidableEq, Repr

/-- What the process gives its warmer: the environment that is safe to pass on,
and the workspace to confine the commands to. -/
structure Warmer where
  safeEnv : List (String × String)
  confineWorkspace : Option String

/-- The command of a directory, inside its devshell if it has one. -/
def Warmer.call (warmer : Warmer) (dir command : String)
    (devshell : Option Direnv.DirenvEnv) : SubprocessCall where
  binary := "bash"
  args := ["-c", command]
  cwd := dir
  env := warmer.safeEnv ++ devshell.getD []
  timeoutSecs := some warmTimeoutSecs
  stdin := none
  confine := warmer.confineWorkspace.map fun workspace => ⟨.exec, workspace⟩

/-- A command that could not be run, or ran out of time, has no exit code. -/
def outcomeOf : Option ℤ → WarmOutcome
  | some 0 => .ready
  | _ => .failed

/-- The map and the channels made so far. -/
structure Slots where
  entries : String → Option Entry
  watches : Watches

namespace Slots

def empty : Slots := ⟨fun _ => none, .none⟩

/-- The slot of a directory is taken with a new channel. -/
def claim (slots : Slots) (dir : String) : Slots where
  entries := Function.update slots.entries dir (some (.warming slots.watches.next))
  watches := slots.watches.channel

def record (slots : Slots) (dir : String) (outcome : WarmOutcome) : Slots :=
  { slots with entries := Function.update slots.entries dir (some (.done outcome)) }

def release (slots : Slots) (channel : ℕ) : Slots :=
  { slots with watches := slots.watches.dropSender channel }

/-- The run that a call of `warm` joins. -/
def live (slots : Slots) (dir : String) : Option ℕ :=
  match slots.entries dir with
  | some (.warming channel) =>
      if slots.watches.closed channel then none else some channel
  | _ => none

end Slots

/-- Where a call stands. -/
inductive Phase where
  /-- `warm` awaits the write lock to join a run or claim the slot. -/
  | claiming (command : String)
  | joined (command : String) (channel : ℕ)
  /-- The joined run is over; awaits the read lock. -/
  | rereading (command : String)
  | resolving (command : String) (channel : ℕ)
  | executing (channel : ℕ) (call : SubprocessCall)
  /-- Awaits the write lock to record the outcome. -/
  | storing (channel : ℕ) (outcome : WarmOutcome)
  | recorded (channel : ℕ) (outcome : WarmOutcome)
  /-- Dropped, and its command killed, but the sender is still there. -/
  | unwinding (channel : ℕ)
  | returned (outcome : WarmOutcome)
  /-- `ready` awaits the read lock. -/
  | looking
  | waiting (channel : ℕ)
  /-- The run is over; awaits the read lock. -/
  | checking (channel : ℕ)
  | answered (outcome : Option WarmOutcome)
  | dropped
  deriving DecidableEq

/-- What is left of a call that is dropped while it awaits. -/
def Phase.abandon : Phase → Option Phase
  | .claiming _ => some .dropped
  | .joined _ _ => some .dropped
  | .rereading _ => some .dropped
  | .resolving _ channel => some (.unwinding channel)
  | .executing channel _ => some (.unwinding channel)
  | .storing channel _ => some (.unwinding channel)
  | .looking => some .dropped
  | .waiting _ => some .dropped
  | .checking _ => some .dropped
  | _ => none

structure Call where
  dir : String
  phase : Phase
  deriving DecidableEq

inductive Action where
  | warm (dir command : String)
  | ready (dir : String)
  | claim
  /-- The channel that the call waits for is closed. -/
  | wake
  | reread
  | resolved (devshell : Except Direnv.DirenvError (Option Direnv.DirenvEnv))
  | executed (exitCode : Option ℤ)
  | record
  | release
  | look
  | check
  | drop

section Steps

variable (warmer : Warmer)

/-- One action of a call that was started. -/
def advance (slots : Slots) (dir : String) :
    Phase → Action → Option (Slots × Phase)
  | .claiming command, .claim =>
      match slots.live dir with
      | some channel => some (slots, .joined command channel)
      | none => some (slots.claim dir, .resolving command slots.watches.next)
  | .joined command channel, .wake =>
      if slots.watches.closed channel then some (slots, .rereading command) else none
  | .rereading command, .reread =>
      match slots.entries dir with
      | some (.done outcome) => some (slots, .returned outcome)
      | _ => some (slots, .claiming command)
  | .resolving command channel, .resolved devshell =>
      match devshell with
      | .ok devshell =>
          some (slots, .executing channel (warmer.call dir command devshell))
      | .error _ => some (slots, .storing channel .failed)
  | .executing channel _, .executed exitCode =>
      some (slots, .storing channel (outcomeOf exitCode))
  | .storing channel outcome, .record =>
      some (slots.record dir outcome, .recorded channel outcome)
  | .recorded channel outcome, .release =>
      some (slots.release channel, .returned outcome)
  | .unwinding channel, .release => some (slots.release channel, .dropped)
  | .looking, .look =>
      match slots.entries dir with
      | none => some (slots, .answered none)
      | some (.done outcome) => some (slots, .answered (some outcome))
      | some (.warming channel) => some (slots, .waiting channel)
  | .waiting channel, .wake =>
      if slots.watches.closed channel then some (slots, .checking channel) else none
  | .checking channel, .check =>
      -- The runner died without recording: its channel is still in the map.
      if slots.entries dir = some (.warming channel) then
        some (slots, .answered (some .failed))
      else some (slots, .looking)
  | phase, .drop => phase.abandon.map fun phase => (slots, phase)
  | _, _ => none

def act (slots : Slots) : Option Call → Action → Option (Slots × Call)
  | none, .warm dir command => some (slots, ⟨dir, .claiming command⟩)
  | none, .ready dir => some (slots, ⟨dir, .looking⟩)
  | some call, action =>
      (advance warmer slots call.dir call.phase action).map
        fun (slots, phase) => (slots, { call with phase })
  | none, _ => none

/-- The map and all calls. -/
abbrev System := World Slots Call

def init : System := idle Slots.empty

def step : System → ℕ × Action → System := Tasks.step (act warmer)

/-- The outcome that a step records, with its directory. -/
def records (system : System) (event : ℕ × Action) :
    List (String × WarmOutcome) :=
  match system.tasks event.1, event.2 with
  | some ⟨dir, .storing _ outcome⟩, .record => [(dir, outcome)]
  | _, _ => []

/-- All outcomes recorded along a run. -/
def recorded (system : System) (events : List (ℕ × Action)) :
    List (String × WarmOutcome) :=
  Run.collect (step warmer) records system events

end Steps

/-- The channel whose sender a call holds. -/
def Phase.sender : Phase → Option ℕ
  | .resolving _ channel => some channel
  | .executing channel _ => some channel
  | .storing channel _ => some channel
  | .recorded channel _ => some channel
  | .unwinding channel => some channel
  | _ => none

/-- The call runs the warm command of the directory. -/
def RunsIn (dir : String) (call : Call) : Prop :=
  call.dir = dir ∧ ∃ channel command, call.phase = .executing channel command

/-- Somebody holds the sender of the channel. -/
def Running (system : System) (channel : ℕ) : Prop :=
  Served (fun channel call => call.phase.sender = some channel) system channel

/-- The outcome recorded last for a directory. -/
def lastOutcome (log : List (String × WarmOutcome)) (dir : String) :
    Option WarmOutcome :=
  ((log.filter (·.1 = dir)).getLast?).map Prod.snd

end Kitaebot.Tools.Warm
