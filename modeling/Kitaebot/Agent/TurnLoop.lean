import Kitaebot.Core.Effect
import Kitaebot.Agent.Strikes
import Kitaebot.Safety

/-!
# The turn loop

A turn draws replies until one of them ends it.  The engine, the endpoint, the
tools and the cancellation token are one world of an arbitrary type, asked in
the order of the source; the loop keeps a trace of what it did.  Logs and
activity events are left out.
-/

namespace Kitaebot.Agent

structure FunctionDefinition where
  name : ToolName
  description : String
  parameters : Json.Value

structure ToolDefinition where
  toolType : String
  function : FunctionDefinition

/-- How a turn fails.  An engine error is its rendered text. -/
inductive Error where
  | engine (text : String)
  | cancelled
  | maxIterationsReached (report : String)
  | noProgress
  | provider (error : ProviderError)
  deriving DecidableEq, Repr

def Error.display : Error → String
  | engine text => "Engine error: " ++ text
  | cancelled => "Turn cancelled"
  | maxIterationsReached report =>
      "Maximum iterations reached without completion. State at exit:\n" ++ report
  | noProgress =>
      "Turn made no progress: the same tool call was repeated after being refused"
  | provider error => "Provider error: " ++ error.display

inductive TurnOutput where
  | text (content : String)
  | policyHalt (reasons : List String)
  | toolHalt (tool args errorClass : String) (count : ℕ)
  deriving DecidableEq, Repr

inductive BudgetPolicy where
  | fail
  | finalAnswer
  deriving DecidableEq, Repr

inductive ReplyPolicy where
  | accept
  | confirm
  deriving DecidableEq, Repr

/-- One result for each call, in the order of the calls. -/
structure RoundResults (calls : List ToolCall) where
  results : List ToolResult
  length_eq : results.length = calls.length

/-- What a turn asks of the world around it.  An answer `none` is the
cancellation that came while waiting. -/
structure Surroundings (World : Type) where
  isCancelled : World → Bool × World
  pushMessage : Message → World → Except String Unit × World
  compactIfUrgent : World → Except String (Option (ℕ × ℕ)) × World
  assemble : String → World → Except String (List Message) × World
  /-- One request to the endpoint, under the active session. -/
  chatCompletions : List Message → List ToolDefinition → World →
    Option (Except ProviderError ChatResponse) × World
  /-- The wait before a retry. -/
  sleep : ℕ → World → Option Unit × World
  observeRequest : List Message → List ToolDefinition → World → World
  observeTokens : ℕ → World → World
  executeAll : (calls : List ToolCall) → World →
    Option (RoundResults calls) × World

structure TurnStats where
  iterations : ℕ
  toolCalls : ℕ
  promptTokens : Option ℕ
  usage : TurnUsage
  squeezed : Bool
  nudged : Bool
  checkpointed : Bool

def TurnStats.new : TurnStats := ⟨0, 0, none, .none, false, false, false⟩

/-- What a turn did. -/
inductive TurnEvent where
  | pushed (message : Message)
  /-- A request with the attempts that were made for it. -/
  | chat (messages : List Message) (tools : List ToolDefinition)
      (attempts : List (Except ProviderError ChatResponse))
  /-- A reply was held back. -/
  | held (iteration : ℕ)
  /-- A round of calls was refused. -/
  | refused (calls : List ToolCall)
  | executed (calls : List ToolCall) (results : List ToolResult)

structure TurnState (World : Type) where
  world : World
  stats : TurnStats
  trace : List TurnEvent

abbrev TurnM (World : Type) := Effect (TurnState World) Error

section Asking

variable {World : Type} (around : Surroundings World)

def emit (event : TurnEvent) : TurnM World Unit :=
  Effect.modify fun state => { state with trace := state.trace ++ [event] }

def changeStats (change : TurnStats → TurnStats) : TurnM World Unit :=
  Effect.modify fun state => { state with stats := change state.stats }

/-- Ask the world something; an error of the engine ends the turn. -/
def ask {Value : Type} (question : World → Except String Value × World) :
    TurnM World Value := fun state =>
  match question state.world with
  | (.ok value, world) => (.ok value, { state with world })
  | (.error text, world) => (.error (.engine text), { state with world })

def cancelPoint : TurnM World Unit := fun state =>
  match around.isCancelled state.world with
  | (true, world) => (.error .cancelled, { state with world })
  | (false, world) => (.ok (), { state with world })

def push (message : Message) : TurnM World Unit := do
  ask (around.pushMessage message)
  emit (.pushed message)

/-- A push whose failure is ignored. -/
def pushAnyway (message : Message) : TurnM World Unit := fun state =>
  match around.pushMessage message state.world with
  | (.ok _, world) =>
      (.ok (), { state with world, trace := state.trace ++ [.pushed message] })
  | (.error _, world) => (.ok (), { state with world })

def observe (change : World → World) : TurnM World Unit :=
  Effect.modify fun state => { state with world := change state.world }

/-- How a request ended. -/
inductive ChatEnd where
  | replied (reply : Response) (usage : CallUsage)
  | failed (error : ProviderError)
  | cancelled

/-- Draw until a reply parses or no retry is granted; `left` retries are left.
Returns every attempt that was made. -/
def retry (messages : List Message) (tools : List ToolDefinition) :
    ℕ → World → ChatEnd × List (Except ProviderError ChatResponse) × World
  | left, world =>
      match around.chatCompletions messages tools world with
      | (none, world) => (.cancelled, [], world)
      | (some sent, world) =>
          match attempt sent with
          | .ok (reply, usage) => (.replied reply usage, [sent], world)
          | .error failure =>
              match left with
              | 0 => (.failed failure.error, [sent], world)
              | left + 1 =>
                  match retryPolicy failure.error (maxRetries - (left + 1)) with
                  | none => (.failed failure.error, [sent], world)
                  | some delay =>
                      match around.sleep delay world with
                      | (none, world) => (.cancelled, [sent], world)
                      | (some (), world) =>
                          let rest := retry messages tools left world
                          (rest.1, sent :: rest.2.1, rest.2.2)

/-- What a failed attempt was billed. -/
def failedDraw (sent : Except ProviderError ChatResponse) : Option CallUsage :=
  match attempt sent with
  | .ok _ => none
  | .error failure => failure.usage

/-- The usage of the attempts that failed. -/
def failedUsage (attempts : List (Except ProviderError ChatResponse)) :
    List CallUsage :=
  attempts.filterMap failedDraw

/-- One request to the provider, raced against the cancellation. -/
def chat (messages : List Message) (tools : List ToolDefinition) :
    TurnM World (Except ChatError ChatOutcome) := fun state =>
  let (ended, attempts, world) := retry around messages tools maxRetries state.world
  let state : TurnState World :=
    ⟨world, state.stats, state.trace ++ [.chat messages tools attempts]⟩
  match ended with
  | .replied reply usage => (.ok (.ok ⟨reply, usage, failedUsage attempts⟩), state)
  | .failed error => (.ok (.error ⟨error, failedUsage attempts⟩), state)
  | .cancelled => (.error .cancelled, state)

def bill (change : TurnUsage → TurnUsage) : TurnM World Unit :=
  changeStats fun stats => { stats with usage := change stats.usage }

/-- Only the draw that succeeded tells the size of the context. -/
def noteTokens : Option UInt32 → TurnM World Unit
  | none => pure ()
  | some promptTokens => do
      observe (around.observeTokens promptTokens.toNat)
      changeStats fun stats => { stats with promptTokens := some promptTokens.toNat }

def settleDraw (messages : List Message) (tools : List ToolDefinition) :
    Except ChatError ChatOutcome → TurnM World Response
  | .error failure => do
      bill (·.addFailed failure.failed)
      Effect.fail (.provider failure.error)
  | .ok outcome => do
      observe (around.observeRequest messages tools)
      bill (·.addFailed outcome.failed)
      noteTokens around outcome.usage.promptTokens
      bill (·.addCall outcome.usage)
      pure outcome.response

/-- Request a reply and account for its draws. -/
def drawReply (messages : List Message) (tools : List ToolDefinition) :
    TurnM World Response := do
  let drawn ← chat around messages tools
  settleDraw around messages tools drawn

/-! ### Tool results -/

/-- What recording a round has gathered. -/
structure Recording where
  toolStrikes : ToolStrikeTracker
  hints : HintTracker
  halt : Option TurnOutput
  roundHints : List String

/-- Take in one result: the recording after it and the message for the model. -/
def takeResult (parse : String → Option Json.Value) (recording : Recording)
    (call : ToolCall) (result : ToolResult) : Recording × Message :=
  let (hints, hint) := recording.hints.observe parse call result
  let recording :=
    { recording with hints, roundHints := recording.roundHints ++ hint.toList }
  match result with
  | .ok output =>
      (recording,
        .tool call.id (Safety.checkToolOutput call.function.name.value output).wrapped)
  | .error error =>
      let (toolStrikes, count) := recording.toolStrikes.record parse call error
      let halt := match count with
        | none => recording.halt
        | some count =>
            if strikeHalt ≤ count then
              some (.toolHalt call.function.name.value call.function.arguments
                (errorClass error) count)
            else recording.halt
      ({ recording with toolStrikes, halt },
        .tool call.id (ToolStrikeTracker.failureText error count))

def recordToolResults (parse : String → Option Json.Value) :
    Recording → List (ToolCall × ToolResult) → TurnM World Recording
  | recording, [] => pure recording
  | recording, (call, result) :: rest => do
      pushAnyway around (takeResult parse recording call result).2
      recordToolResults parse (takeResult parse recording call result).1 rest

/-! ### One iteration -/

def repeatError : String :=
  "ERROR: You have called this tool with identical arguments multiple times and " ++
    "received the same result. Do NOT retry the same call. Either use a different " ++
    "tool or action, or respond to the user explaining what you tried and why it " ++
    "did not work."

def policyStopDirective : String :=
  "POLICY VIOLATION: A tool call was blocked. Do NOT work around this. Report " ++
    "the situation to the user and await direction."

def confirmReplyDirective : String :=
  "Your previous message was not published. You are working unattended; your " ++
    "next text reply will be posted verbatim as a public comment. If the work is " ++
    "unfinished, continue with tool calls. Otherwise reply with exactly the " ++
    "comment to publish: what was done, what remains, and any branch or PR created."

def midpointCheckpointDirective : String :=
  "Half the iteration budget for this task is spent. In your next reasoning, " ++
    "restate the objective, list what is verified done, and name the current " ++
    "obstacle. If you are debugging a failing check, derive the expected value " ++
    "from first principles before suspecting the code: your own expectation may " ++
    "be the bug. If an approach has failed twice, drop it and take a different " ++
    "one. Then continue with tool calls; do not end the turn with a status summary."

def finalAnswerDirective : String :=
  "Your tool-call budget for this task is exhausted; no further tool calls will " ++
    "be executed. Reply now with your final answer from the evidence gathered so " ++
    "far, and state what remains unverified."

def stateReportDirective : String :=
  "Your iteration budget is exhausted and this turn is about to be reported as " ++
    "failed. No further tool calls will be executed. Reply now with a state report " ++
    "for a successor: what you were doing, what is complete (branch names and " ++
    "commits pushed or left in the working tree), what remains, and the specific " ++
    "obstacle if you were stuck. Concrete paths and refs over prose."

/-- The variables of the loop. -/
structure LoopVars where
  repeats : RepeatDetector
  hints : HintTracker
  policyStrikes : String → ℕ
  blockedRounds : ℕ
  repeatStrikes : ℕ
  toolStrikes : ToolStrikeTracker

def LoopVars.new : LoopVars := ⟨.new, .new, fun _ => 0, 0, 0, .new⟩

/-- What the caller of a turn sets. -/
structure TurnConfig where
  systemPrompt : String
  userMessage : String
  tools : List ToolDefinition
  maxIterations : ℕ
  budget : BudgetPolicy
  reply : ReplyPolicy

/-- An iteration goes on to the next or ends the turn. -/
inductive Flow where
  | next (vars : LoopVars)
  | done (output : TurnOutput)

section Iteration

variable (parse : String → Option Json.Value) (cfg : TurnConfig)

/-- The halfway directive. -/
def checkpoint (iteration : ℕ) : TurnM World Unit :=
  if iteration = cfg.maxIterations / 2 ∧ 0 < iteration then do
    changeStats fun stats => { stats with checkpointed := true }
    push around (.system midpointCheckpointDirective)
  else pure ()

/-- What comes before the request: the messages to send. -/
def prepare (iteration : ℕ) : TurnM World (List Message) := do
  cancelPoint around
  changeStats fun stats => { stats with iterations := iteration + 1 }
  let _ ← ask around.compactIfUrgent
  checkpoint around cfg iteration
  ask (around.assemble cfg.systemPrompt)

/-- A reply is held once, and never that of the last iteration. -/
def holdOrReturn (iteration : ℕ) (vars : LoopVars) (content : String)
    (nudged : Bool) : TurnM World Flow :=
  if cfg.reply = .confirm ∧ nudged = false ∧ iteration + 1 < cfg.maxIterations then do
    changeStats fun stats => { stats with nudged := true }
    emit (.held iteration)
    push around (.system confirmReplyDirective)
    pure (.next vars)
  else pure (.done (.text content))

def takeText (iteration : ℕ) (vars : LoopVars) (content : String) :
    TurnM World Flow := do
  push around (.assistant content)
  let nudged ← Effect.gets fun state => state.stats.nudged
  holdOrReturn around cfg iteration vars content nudged

/-- A round that repeats is refused; every call still gets a result. -/
def refuse (vars : LoopVars) (calls : List ToolCall) : TurnM World Flow := do
  emit (.refused calls)
  Effect.forEach (fun call => push around (.tool call.id repeatError)) calls
  if repeatStrikeLimit ≤ vars.repeatStrikes + 1 then Effect.fail .noProgress
  else pure (.next { vars with repeatStrikes := vars.repeatStrikes + 1 })

/-- Run the tools, raced against the cancellation. -/
def execute (calls : List ToolCall) : TurnM World (List ToolResult) := fun state =>
  match around.executeAll calls state.world with
  | (none, world) => (.error .cancelled, { state with world })
  | (some round, world) =>
      (.ok round.results,
        { state with world, trace := state.trace ++ [.executed calls round.results] })

/-- The variables after a round with blocked calls, and whether it halts. -/
def LoopVars.strike (vars : LoopVars) (blocked : List (String × String)) :
    LoopVars × Bool :=
  let blockedRounds := vars.blockedRounds + 1
  let (policyStrikes, halt) := strikePolicies vars.policyStrikes
    (decide (policyRoundLimit ≤ blockedRounds)) (blocked.map Prod.snd)
  ({ vars with policyStrikes, blockedRounds }, halt)

def pushHints (hints : List String) : TurnM World Unit :=
  if hints = [] then pure () else push around (.system ("\n".intercalate hints))

/-- What follows the results of a round: a tool's halt comes before a policy's. -/
def settleRound (vars : LoopVars) (halt : Option TurnOutput)
    (blocked : List (String × String)) : TurnM World Flow :=
  match halt with
  | some halt => pure (.done halt)
  | none =>
      if blocked = [] then pure (.next vars)
      else if (vars.strike blocked).2 then
        pure (.done (.policyHalt (blocked.map Prod.fst)))
      else do
        push around (.system policyStopDirective)
        pure (.next (vars.strike blocked).1)

def runTools (vars : LoopVars) (calls : List ToolCall) : TurnM World Flow := do
  changeStats fun stats => { stats with toolCalls := stats.toolCalls + calls.length }
  let results ← execute around calls
  let recording ← recordToolResults around parse
    ⟨vars.toolStrikes, vars.hints, none, []⟩ (calls.zip results)
  pushHints around recording.roundHints
  settleRound around
    { vars with
      repeatStrikes := 0
      toolStrikes := recording.toolStrikes
      hints := recording.hints }
    recording.halt (blockedCalls results)

def judgeCalls (vars : LoopVars) (calls : List ToolCall) : TurnM World Flow :=
  if vars.repeats.reached then refuse around vars calls
  else runTools around parse vars calls

def takeCalls (vars : LoopVars) (content : String) (calls : List ToolCall) :
    TurnM World Flow := do
  push around (.toolCalls content calls)
  judgeCalls around parse
    { vars with repeats := vars.repeats.record parse calls } calls

def takeReply (iteration : ℕ) (vars : LoopVars) : Response → TurnM World Flow
  | .text content => takeText around cfg iteration vars content
  | .toolCalls content calls => takeCalls around parse vars content calls

def iterate (iteration : ℕ) (vars : LoopVars) : TurnM World Flow := do
  let messages ← prepare around cfg iteration
  let reply ← drawReply around messages cfg.tools
  takeReply around parse cfg iteration vars reply

/-- The iterations from one on, `left` of them; `none` at the cap. -/
def loop : ℕ → ℕ → LoopVars → TurnM World (Option TurnOutput)
  | 0, _, _ => pure none
  | left + 1, iteration, vars => do
      let flow ← iterate around parse cfg iteration vars
      match flow with
      | .done output => pure (some output)
      | .next vars => loop left (iteration + 1) vars

/-! ### The cap -/

/-- One completion without tools, recorded in the session. -/
def squeeze (directive : String) : TurnM World String := do
  changeStats fun stats => { stats with squeezed := true }
  push around (.system directive)
  let messages ← ask (around.assemble cfg.systemPrompt)
  let reply ← drawReply around messages []
  push around (.assistant reply.content)
  pure reply.content

def finalAnswer : TurnM World TurnOutput := do
  let content ← squeeze around cfg finalAnswerDirective
  pure (.text content)

def stateReportMax : ℕ := 3000

def truncateOutput (text : String) (maxBytes : ℕ) : String :=
  if text.utf8ByteSize ≤ maxBytes then text
  else
    let kept := Text.leading text maxBytes
    kept ++ "...\n[truncated " ++
      toString (text.utf8ByteSize - kept.utf8ByteSize) ++ " bytes]"

/-- The state report never hides the cap; a cancellation stays one. -/
def stateReport : TurnM World TurnOutput := fun state =>
  match squeeze around cfg stateReportDirective state with
  | (.ok report, state) =>
      (.error (.maxIterationsReached (truncateOutput report stateReportMax)), state)
  | (.error .cancelled, state) => (.error .cancelled, state)
  | (.error error, state) =>
      (.error (.maxIterationsReached
        ("(state report unavailable: " ++ error.display ++ ")")), state)

/-- The cap was reached. -/
def spent : TurnM World TurnOutput :=
  match cfg.budget with
  | .fail => stateReport around cfg
  | .finalAnswer => finalAnswer around cfg

def turnLoop : TurnM World TurnOutput := do
  cancelPoint around
  push around (.user cfg.userMessage)
  let output ← loop around parse cfg cfg.maxIterations 0 .new
  match output with
  | some output => pure output
  | none => spent around cfg

/-- What the ledger records of a turn, wall time apart. -/
structure TurnMeter where
  usage : TurnUsage
  outcome : String

def outcomeLabel : Except Error TurnOutput → String
  | .ok (.policyHalt _) => "policy_halt"
  | .ok (.text _) => "text"
  | .ok (.toolHalt _ _ _ _) => "tool_halt"
  | .error .cancelled => "cancelled"
  | .error (.maxIterationsReached _) => "max_iterations"
  | .error .noProgress => "no_progress"
  | .error _ => "error"

/-- A turn with its meter, the world after it and what it did. -/
structure TurnRecord (World : Type) where
  result : Except Error TurnOutput
  meter : TurnMeter
  world : World
  trace : List TurnEvent

def runTurnMetered (world : World) : TurnRecord World :=
  let (result, state) := turnLoop around parse cfg ⟨world, .new, []⟩
  ⟨result, ⟨state.stats.usage, outcomeLabel result⟩, state.world, state.trace⟩

end Iteration

end Asking

end Kitaebot.Agent
