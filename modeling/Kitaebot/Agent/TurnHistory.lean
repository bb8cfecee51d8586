import Kitaebot.Agent.TurnLoop
import Kitaebot.ToolRounds

/-!
# The history a turn sends

Every request of a turn carries a history in which each round of calls is followed at
once by its results.  The rounds of a turn leave the history so, but for one exit: a
turn cancelled while its tools run leaves the calls of that round without results.
-/

namespace Kitaebot.Agent

open Effect (Triple Leaves)

/-- The stored message makes the calls, or answers the call, that the message does. -/
def SameCalls (message stored : Message) : Prop :=
  ∀ pending, advance pending stored = advance pending message

/-- The engine keeps a history: pushes are added to it, the request is built from it,
and what rewrites it keeps the rounds whole. -/
structure KeepsHistory {World : Type} (around : Surroundings World)
    (view : World → List Message) : Prop where
  isCancelled : ∀ world, view (around.isCancelled world).2 = view world
  push : ∀ message world, ∃ stored later, around.pushMessage message world = (.ok (), later) ∧
    SameCalls message stored ∧ view later = view world ++ [stored]
  compact : ∀ world, Rounds (view world) → Rounds (view (around.compactIfUrgent world).2)
  assembled : ∀ prompt world, view (around.assemble prompt world).2 = view world
  request : ∀ prompt world messages, (around.assemble prompt world).1 = .ok messages →
    Rounds (view world) → Rounds messages
  chatCompletions : ∀ messages tools world,
    view (around.chatCompletions messages tools world).2 = view world
  sleep : ∀ delay world, view (around.sleep delay world).2 = view world
  observeRequest : ∀ messages tools world,
    view (around.observeRequest messages tools world) = view world
  observeTokens : ∀ tokens world, view (around.observeTokens tokens world) = view world
  executeAll : ∀ calls world, view (around.executeAll calls world).2 = view world

/-- Every request so far carried whole rounds. -/
def Sent (trace : List TurnEvent) : Prop :=
  ∀ messages tools attempts, .chat messages tools attempts ∈ trace → Rounds messages

def TurnEvent.calls : TurnEvent → Bool
  | .pushed (.toolCalls _ _) => true
  | _ => false

/-- The turn ended between a round of calls and its results. -/
def Interrupted (trace : List TurnEvent) : Prop :=
  trace.getLast?.any TurnEvent.calls = true

instance (trace : List TurnEvent) : Decidable (Interrupted trace) :=
  inferInstanceAs (Decidable (trace.getLast?.any TurnEvent.calls = true))

section Turn

variable {World : Type} {around : Surroundings World} {view : World → List Message}

/-- The calls that wait for a result. -/
def Waiting (view : World → List Message) (pending : List String)
    (state : TurnState World) : Prop :=
  Sent state.trace ∧ settle [] (view state.world) = some pending

abbrev Whole (view : World → List Message) : TurnState World → Prop := Waiting view []

/-- How a turn may end. -/
def Ended (view : World → List Message) (state : TurnState World) : Prop :=
  Sent state.trace ∧ (Rounds (view state.world) ∨ Interrupted state.trace)

theorem Whole.ended {state : TurnState World} (hstate : Whole view state) :
    Ended view state :=
  ⟨hstate.1, .inl hstate.2⟩

theorem sent_concat {trace : List TurnEvent} (hsent : Sent trace) {event : TurnEvent}
    (hevent : ∀ messages tools attempts, event = .chat messages tools attempts →
      Rounds messages) : Sent (trace ++ [event]) := by
  intro messages tools attempts hmem
  rcases List.mem_append.1 hmem with hmem | hmem
  · exact hsent messages tools attempts hmem
  · exact hevent messages tools attempts (List.mem_singleton.1 hmem).symm

/-- What the effect leaves alone: the history and the trace. -/
def record (view : World → List Message) (state : TurnState World) :
    List Message × List TurnEvent :=
  (view state.world, state.trace)

abbrev Untold (view : World → List Message) {Value : Type} (effect : TurnM World Value) :
    Prop :=
  Leaves (record view) effect

theorem Untold.whole {Value : Type} {effect : TurnM World Value}
    (heffect : Untold view effect) :
    Triple (Whole view) effect (fun _ => Whole view) (Ended view) := by
  apply Triple.of_leaves heffect
  · intro state other hsame hstate
    obtain ⟨hview, htrace⟩ := Prod.mk.inj hsame
    rw [Whole, Waiting, hview, htrace]
    exact hstate
  · exact fun state hstate => hstate.ended

theorem untold_changeStats (change : TurnStats → TurnStats) :
    Untold view (changeStats change) :=
  .modify fun _ => rfl

theorem untold_observe {change : World → World}
    (hchange : ∀ world, view (change world) = view world) : Untold view (observe change) :=
  .modify fun state => by rw [record, record, hchange]

theorem untold_cancelPoint (hkeeps : KeepsHistory around view) :
    Untold view (cancelPoint around) := by
  intro state result final hrun
  have hworld := hkeeps.isCancelled state.world
  rw [cancelPoint] at hrun
  rcases hcancel : around.isCancelled state.world with ⟨cancelled, world⟩
  rw [hcancel] at hrun hworld
  cases cancelled <;> cases hrun <;> exact congrArg (·, state.trace) hworld

/-- A message is in the history once it is pushed. -/
theorem waiting_of_pushed {message stored : Message} {pending next : List String}
    (hnext : advance pending message = some next) (hsame : SameCalls message stored)
    {state : TurnState World} (hstate : Waiting view pending state) {later : World}
    (hview : view later = view state.world ++ [stored]) :
    Waiting view next
      { state with world := later, trace := state.trace ++ [.pushed message] } := by
  constructor
  · exact sent_concat hstate.1 fun _ _ _ hevent => by cases hevent
  · change settle [] (view later) = some next
    rw [hview, settle_append, hstate.2, Option.bind_some, settle, hsame, hnext]
    rfl

/-- A push adds its message to the history and to the trace. -/
theorem pushed_push (hkeeps : KeepsHistory around view) {message : Message}
    {pending next : List String} (hnext : advance pending message = some next)
    {failed : TurnState World → Prop} :
    Triple (Waiting view pending) (push around message)
      (fun _ state => Waiting view next state ∧ state.trace.getLast? = some (.pushed message))
      failed := by
  intro state hstate
  obtain ⟨stored, later, hpush, hsame, hview⟩ := hkeeps.push message state.world
  have hrun : push around message state = (.ok (),
      { state with world := later, trace := state.trace ++ [.pushed message] }) := by
    rw [push, Effect.bind_of_ok (by rw [ask, hpush])]
    rfl
  rw [hrun]
  constructor
  · intro value final hfinal
    cases hfinal
    exact ⟨waiting_of_pushed hnext hsame hstate hview, List.getLast?_concat⟩
  · intro error final hfinal
    cases hfinal

theorem waiting_push (hkeeps : KeepsHistory around view) {message : Message}
    {pending next : List String} (hnext : advance pending message = some next)
    {failed : TurnState World → Prop} :
    Triple (Waiting view pending) (push around message) (fun _ => Waiting view next)
      failed :=
  (pushed_push hkeeps hnext).weaken (fun _ hstate => hstate) fun _ _ hafter => hafter.1

theorem waiting_pushAnyway (hkeeps : KeepsHistory around view) {message : Message}
    {pending next : List String} (hnext : advance pending message = some next)
    {failed : TurnState World → Prop} :
    Triple (Waiting view pending) (pushAnyway around message) (fun _ => Waiting view next)
      failed := by
  intro state hstate
  obtain ⟨stored, later, hpush, hsame, hview⟩ := hkeeps.push message state.world
  rw [pushAnyway, hpush]
  constructor
  · intro value final hfinal
    cases hfinal
    exact waiting_of_pushed hnext hsame hstate hview
  · intro error final hfinal
    cases hfinal

/-- A push that makes and answers no call. -/
theorem whole_push (hkeeps : KeepsHistory around view) {message : Message}
    (hplain : message.inRound = false) :
    Triple (Whole view) (push around message) (fun _ => Whole view) (Ended view) := by
  apply waiting_push hkeeps
  cases message with
  | tool callId content => cases hplain
  | toolCalls content calls => cases hplain
  | assistant content => rfl
  | system content => rfl
  | user content => rfl

/-! ### Requests -/

theorem whole_compact (hkeeps : KeepsHistory around view) :
    Triple (Whole view) (ask around.compactIfUrgent) (fun _ => Whole view) (Ended view) := by
  intro state hstate
  have hcompact := hkeeps.compact state.world hstate.2
  rw [ask]
  rcases hask : around.compactIfUrgent state.world with ⟨answer, world⟩
  rw [hask] at hcompact
  have hlater : Whole view { state with world } := ⟨hstate.1, hcompact⟩
  cases answer with
  | ok event =>
      constructor <;> intro value final hfinal <;> cases hfinal
      exact hlater
  | error text =>
      constructor <;> intro value final hfinal <;> cases hfinal
      exact hlater.ended

/-- The request is built from a whole history. -/
theorem whole_assemble (hkeeps : KeepsHistory around view) (prompt : String) :
    Triple (Whole view) (ask (around.assemble prompt))
      (fun messages state => Rounds messages ∧ Whole view state) (Ended view) := by
  intro state hstate
  have hview := hkeeps.assembled prompt state.world
  have hrequest := hkeeps.request prompt state.world
  rw [ask]
  rcases hassemble : around.assemble prompt state.world with ⟨answer, world⟩
  rw [hassemble] at hview hrequest
  have hlater : Whole view { state with world } := by
    refine ⟨hstate.1, ?_⟩
    change settle [] (view world) = some []
    rw [show view world = view state.world from hview]
    exact hstate.2
  cases answer with
  | ok messages =>
      constructor <;> intro value final hfinal <;> cases hfinal
      exact ⟨hrequest messages rfl hstate.2, hlater⟩
  | error text =>
      constructor <;> intro value final hfinal <;> cases hfinal
      exact hlater.ended

theorem view_retry (hkeeps : KeepsHistory around view) (messages : List Message)
    (tools : List ToolDefinition) (left : ℕ) (world : World) :
    view (retry around messages tools left world).2.2 = view world := by
  have hasked := hkeeps.chatCompletions messages tools world
  induction left generalizing world with
  | zero =>
      rw [retry]
      rcases hask : around.chatCompletions messages tools world with ⟨answer, later⟩
      rw [hask] at hasked
      rcases answer with _ | sent
      · exact hasked
      · dsimp only
        cases attempt sent with
        | ok reply => exact hasked
        | error failure => exact hasked
  | succ left ih =>
      rw [retry]
      rcases hask : around.chatCompletions messages tools world with ⟨answer, later⟩
      rw [hask] at hasked
      rcases answer with _ | sent
      · exact hasked
      · dsimp only
        cases attempt sent with
        | ok reply => exact hasked
        | error failure =>
            dsimp only
            cases retryPolicy failure.error (maxRetries - (left + 1)) with
            | none => exact hasked
            | some delay =>
                dsimp only
                have hslept := hkeeps.sleep delay later
                rcases hsleep : around.sleep delay later with ⟨woken, rested⟩
                rw [hsleep] at hslept
                rcases woken with _ | ⟨⟩
                · exact hslept.trans hasked
                · exact (ih rested (hkeeps.chatCompletions messages tools rested)).trans
                    (hslept.trans hasked)

theorem whole_chat (hkeeps : KeepsHistory around view) {messages : List Message}
    (hmessages : Rounds messages) (tools : List ToolDefinition) :
    Triple (Whole view) (chat around messages tools) (fun _ => Whole view) (Ended view) := by
  intro state hstate
  have hview := view_retry hkeeps messages tools maxRetries state.world
  rw [chat]
  rcases hretry : retry around messages tools maxRetries state.world with
    ⟨ended, attempts, world⟩
  rw [hretry] at hview
  have hlater : Whole view
      ⟨world, state.stats, state.trace ++ [.chat messages tools attempts]⟩ := by
    constructor
    · apply sent_concat hstate.1
      intro other _ _ hevent
      cases hevent
      exact hmessages
    · change settle [] (view world) = some []
      rw [show view world = view state.world from hview]
      exact hstate.2
  cases ended <;> constructor <;> intro value final hfinal <;> cases hfinal
  · exact hlater
  · exact hlater
  · exact hlater.ended

theorem untold_settleDraw (hkeeps : KeepsHistory around view) (messages : List Message)
    (tools : List ToolDefinition) (drawn : Except ChatError ChatOutcome) :
    Untold view (settleDraw around messages tools drawn) := by
  cases drawn with
  | error failure => exact .bind (untold_changeStats _) fun _ => .fail _
  | ok outcome =>
      refine .bind (untold_observe (hkeeps.observeRequest messages tools)) fun _ => ?_
      refine .bind (untold_changeStats _) fun _ => .bind ?_ fun _ => ?_
      · cases outcome.usage.promptTokens with
        | none => exact .pure _
        | some tokens =>
            exact .bind (untold_observe (hkeeps.observeTokens tokens.toNat)) fun _ =>
              untold_changeStats _
      · exact .bind (untold_changeStats _) fun _ => .pure _

theorem whole_drawReply (hkeeps : KeepsHistory around view) {messages : List Message}
    (hmessages : Rounds messages) (tools : List ToolDefinition) :
    Triple (Whole view) (drawReply around messages tools) (fun _ => Whole view)
      (Ended view) :=
  (whole_chat hkeeps hmessages tools).bind fun drawn =>
    (untold_settleDraw hkeeps messages tools drawn).whole

/-! ### Rounds -/

/-- The results of the calls, in their order, answer the waiting ones. -/
theorem waiting_answers {Item : Type} (id : Item → String) {each : Item → TurnM World Unit}
    {failed : TurnState World → Prop}
    (heach : ∀ item pending, Triple (Waiting view (id item :: pending)) (each item)
      (fun _ => Waiting view pending) failed) (items : List Item) :
    Triple (Waiting view (items.map id)) (Effect.forEach each items)
      (fun _ => Whole view) failed := by
  induction items with
  | nil => exact .pure fun _ hstate => hstate
  | cons item items ih => exact (heach item _).bind fun _ => ih

theorem advance_result (id : String) (pending : List String) (content : String) :
    advance (id :: pending) (.tool id content) = some pending :=
  if_pos rfl

/-- A refused round is answered whole. -/
theorem waiting_refuse (hkeeps : KeepsHistory around view) (vars : LoopVars)
    (calls : List ToolCall) :
    Triple (Waiting view (calls.map ToolCall.id)) (refuse around vars calls)
      (fun _ => Whole view) (Ended view) := by
  have hemit : Triple (Waiting view (calls.map ToolCall.id)) (emit (.refused calls))
      (fun _ => Waiting view (calls.map ToolCall.id)) (Ended view) := by
    intro state hstate
    constructor <;> intro value final hfinal <;> cases hfinal
    exact ⟨sent_concat hstate.1 fun _ _ _ hevent => (by cases hevent), hstate.2⟩
  refine hemit.bind fun _ => Triple.bind (waiting_answers ToolCall.id
    (fun call pending => waiting_push hkeeps (advance_result call.id pending _)) calls)
      fun _ => ?_
  split
  · exact .fail _ fun state hstate => hstate.ended
  · exact .pure fun _ hstate => hstate

theorem waiting_record (hkeeps : KeepsHistory around view)
    (parse : String → Option Json.Value) (recording : Recording)
    (rounds : List (ToolCall × ToolResult)) :
    Triple (Waiting view (rounds.map fun round => round.1.id))
      (recordToolResults around parse recording rounds) (fun _ => Whole view)
        (Ended view) := by
  induction rounds generalizing recording with
  | nil => exact .pure fun _ hstate => hstate
  | cons round rounds ih =>
      obtain ⟨call, result⟩ := round
      have hanswer : advance (call.id :: rounds.map fun round => round.1.id)
          (takeResult parse recording call result).2 =
            some (rounds.map fun round => round.1.id) := by
        cases result <;> exact advance_result call.id _ _
      exact (waiting_pushAnyway hkeeps hanswer).bind fun _ => ih _

/-- The calls are in the history, and nothing has happened since. -/
def Calling (view : World → List Message) (content : String) (calls : List ToolCall)
    (state : TurnState World) : Prop :=
  Waiting view (calls.map ToolCall.id) state ∧
    state.trace.getLast? = some (.pushed (.toolCalls content calls))

/-- The tools give a result for each call, or the turn is cancelled between the two. -/
theorem calling_execute (hkeeps : KeepsHistory around view) (content : String)
    (calls : List ToolCall) :
    Triple (Calling view content calls) (execute around calls)
      (fun results state => results.length = calls.length ∧
        Waiting view (calls.map ToolCall.id) state) (Ended view) := by
  intro state hstate
  obtain ⟨⟨hsent, hwaiting⟩, hlast⟩ := hstate
  have hview := hkeeps.executeAll calls state.world
  rw [execute]
  rcases hrun : around.executeAll calls state.world with ⟨round, world⟩
  rw [hrun] at hview
  replace hview : view world = view state.world := hview
  cases round with
  | none =>
      constructor <;> intro value final hfinal <;> cases hfinal
      refine ⟨hsent, .inr ?_⟩
      rw [Interrupted, hlast]
      rfl
  | some round =>
      constructor <;> intro value final hfinal <;> cases hfinal
      refine ⟨round.length_eq, sent_concat hsent fun _ _ _ hevent => (by cases hevent), ?_⟩
      change settle [] (view world) = _
      rw [hview]
      exact hwaiting

theorem whole_pushHints (hkeeps : KeepsHistory around view) (hints : List String) :
    Triple (Whole view) (pushHints around hints) (fun _ => Whole view) (Ended view) := by
  rw [pushHints]
  split
  · exact .pure fun _ hstate => hstate
  · exact whole_push hkeeps rfl

theorem whole_settleRound (hkeeps : KeepsHistory around view) (vars : LoopVars)
    (halt : Option TurnOutput) (blocked : List (String × String)) :
    Triple (Whole view) (settleRound around vars halt blocked) (fun _ => Whole view)
      (Ended view) := by
  cases halt with
  | some output => exact .pure fun _ hstate => hstate
  | none =>
      rw [settleRound]
      split
      · exact .pure fun _ hstate => hstate
      · split
        · exact .pure fun _ hstate => hstate
        · exact (whole_push hkeeps rfl).bind fun _ => .pure fun _ hstate => hstate

theorem map_id_zip {calls : List ToolCall} {results : List ToolResult}
    (hlength : results.length = calls.length) :
    ((calls.zip results).map fun round => round.1.id) = calls.map ToolCall.id := by
  have hfirst := List.map_fst_zip (Nat.le_of_eq hlength.symm)
  calc ((calls.zip results).map fun round => round.1.id)
      = ((calls.zip results).map Prod.fst).map ToolCall.id := by rw [List.map_map]; rfl
    _ = calls.map ToolCall.id := by rw [hfirst]

theorem calling_runTools (hkeeps : KeepsHistory around view)
    (parse : String → Option Json.Value) (vars : LoopVars) (content : String)
    (calls : List ToolCall) :
    Triple (Calling view content calls) (runTools around parse vars calls)
      (fun _ => Whole view) (Ended view) := by
  have hstats : Triple (Calling view content calls)
      (changeStats fun stats => { stats with toolCalls := stats.toolCalls + calls.length })
      (fun _ => Calling view content calls) (Ended view) := by
    intro state hstate
    constructor <;> intro value final hfinal <;> cases hfinal
    exact hstate
  refine hstats.bind fun _ => (calling_execute hkeeps content calls).bind fun results => ?_
  intro state ⟨hlength, hwaiting⟩
  have hrecord := waiting_record hkeeps parse ⟨vars.toolStrikes, vars.hints, none, []⟩
    (calls.zip results)
  rw [map_id_zip hlength] at hrecord
  exact hrecord.bind (fun recording => (whole_pushHints hkeeps _).bind fun _ =>
    whole_settleRound hkeeps _ _ _) state hwaiting

/-- A reply with calls leaves its round whole, unless it is cut between the calls and
their results. -/
theorem whole_takeCalls (hkeeps : KeepsHistory around view)
    (parse : String → Option Json.Value) (vars : LoopVars) (content : String)
    (calls : List ToolCall) :
    Triple (Whole view) (takeCalls around parse vars content calls) (fun _ => Whole view)
      (Ended view) := by
  refine Triple.bind (pushed_push hkeeps rfl) fun _ => ?_
  rw [judgeCalls]
  split
  · exact (waiting_refuse hkeeps _ calls).weaken (fun _ hstate => hstate.1)
      fun _ _ hafter => hafter
  · exact calling_runTools hkeeps parse _ content calls

/-! ### The turn -/

theorem whole_checkpoint (hkeeps : KeepsHistory around view) (cfg : TurnConfig)
    (iteration : ℕ) :
    Triple (Whole view) (checkpoint around cfg iteration) (fun _ => Whole view)
      (Ended view) := by
  rw [checkpoint]
  split
  · exact (untold_changeStats _).whole.bind fun _ => whole_push hkeeps rfl
  · exact .pure fun _ hstate => hstate

theorem whole_prepare (hkeeps : KeepsHistory around view) (cfg : TurnConfig)
    (iteration : ℕ) :
    Triple (Whole view) (prepare around cfg iteration)
      (fun messages state => Rounds messages ∧ Whole view state) (Ended view) :=
  (untold_cancelPoint hkeeps).whole.bind fun _ =>
    (untold_changeStats _).whole.bind fun _ => (whole_compact hkeeps).bind fun _ =>
      (whole_checkpoint hkeeps cfg iteration).bind fun _ => whole_assemble hkeeps _

theorem whole_takeText (hkeeps : KeepsHistory around view) (cfg : TurnConfig)
    (iteration : ℕ) (vars : LoopVars) (content : String) :
    Triple (Whole view) (takeText around cfg iteration vars content) (fun _ => Whole view)
      (Ended view) := by
  have hread : Untold view
      (Effect.gets fun state => state.stats.nudged : TurnM World Bool) := .gets _
  refine (whole_push hkeeps rfl).bind fun _ => hread.whole.bind fun nudged => ?_
  rw [holdOrReturn]
  split
  · have hemit : Triple (Whole view) (emit (.held iteration)) (fun _ => Whole view)
        (Ended view) := by
      intro state hstate
      constructor <;> intro value final hfinal <;> cases hfinal
      exact ⟨sent_concat hstate.1 fun _ _ _ hevent => (by cases hevent), hstate.2⟩
    exact (untold_changeStats _).whole.bind fun _ => hemit.bind fun _ =>
      (whole_push hkeeps rfl).bind fun _ => .pure fun _ hstate => hstate
  · exact .pure fun _ hstate => hstate

/-- A step whose value tells that the request is whole. -/
theorem whole_request {Value : Type} {next : List Message → TurnM World Value}
    {effect : TurnM World (List Message)}
    (heffect : Triple (Whole view) effect
      (fun messages state => Rounds messages ∧ Whole view state) (Ended view))
    (hnext : ∀ messages, Rounds messages →
      Triple (Whole view) (next messages) (fun _ => Whole view) (Ended view)) :
    Triple (Whole view) (effect >>= next) (fun _ => Whole view) (Ended view) :=
  heffect.bind fun messages state hstate => hnext messages hstate.1 state hstate.2

theorem whole_iterate (hkeeps : KeepsHistory around view)
    (parse : String → Option Json.Value) (cfg : TurnConfig) (iteration : ℕ)
    (vars : LoopVars) :
    Triple (Whole view) (iterate around parse cfg iteration vars) (fun _ => Whole view)
      (Ended view) := by
  refine whole_request (whole_prepare hkeeps cfg iteration) fun messages hmessages => ?_
  refine (whole_drawReply hkeeps hmessages cfg.tools).bind fun reply => ?_
  cases reply with
  | text content => exact whole_takeText hkeeps cfg iteration vars content
  | toolCalls content calls => exact whole_takeCalls hkeeps parse vars content calls

theorem whole_loop (hkeeps : KeepsHistory around view)
    (parse : String → Option Json.Value) (cfg : TurnConfig) (left iteration : ℕ)
    (vars : LoopVars) :
    Triple (Whole view) (loop around parse cfg left iteration vars) (fun _ => Whole view)
      (Ended view) := by
  induction left generalizing iteration vars with
  | zero => exact .pure fun _ hstate => hstate
  | succ left ih =>
      refine (whole_iterate hkeeps parse cfg iteration vars).bind fun flow => ?_
      cases flow with
      | done output => exact .pure fun _ hstate => hstate
      | next vars => exact ih (iteration + 1) vars

theorem whole_squeeze (hkeeps : KeepsHistory around view) (cfg : TurnConfig)
    (directive : String) :
    Triple (Whole view) (squeeze around cfg directive) (fun _ => Whole view)
      (Ended view) := by
  refine (untold_changeStats _).whole.bind fun _ => (whole_push hkeeps rfl).bind fun _ => ?_
  refine whole_request (whole_assemble hkeeps cfg.systemPrompt) fun messages hmessages => ?_
  exact (whole_drawReply hkeeps hmessages []).bind fun reply =>
    (whole_push hkeeps rfl).bind fun _ => .pure fun _ hstate => hstate

theorem whole_spent (hkeeps : KeepsHistory around view) (cfg : TurnConfig) :
    Triple (Whole view) (spent around cfg) (fun _ => Whole view) (Ended view) := by
  rw [spent]
  cases cfg.budget with
  | finalAnswer =>
      exact (whole_squeeze hkeeps cfg _).bind fun _ => .pure fun _ hstate => hstate
  | fail =>
      intro state hstate
      obtain ⟨hok, herror⟩ := whole_squeeze hkeeps cfg stateReportDirective state hstate
      dsimp only
      rw [stateReport]
      rcases hrun : squeeze around cfg stateReportDirective state with ⟨result, final⟩
      rcases result with error | report
      · have hended := herror error final hrun
        cases error <;> constructor <;> intro value later hfinal <;> cases hfinal <;>
          exact hended
      · have hwhole := hok report final hrun
        constructor <;> intro value later hfinal <;> cases hfinal
        exact hwhole.ended

theorem whole_turnLoop (hkeeps : KeepsHistory around view)
    (parse : String → Option Json.Value) (cfg : TurnConfig) :
    Triple (Whole view) (turnLoop around parse cfg) (fun _ => Whole view) (Ended view) := by
  refine (untold_cancelPoint hkeeps).whole.bind fun _ => (whole_push hkeeps rfl).bind
    fun _ => (whole_loop hkeeps parse cfg _ _ _).bind fun output => ?_
  cases output with
  | none => exact whole_spent hkeeps cfg
  | some output => exact .pure fun _ hstate => hstate

/-- Every request of a turn that starts from a whole history carries one, and the turn
leaves one unless it is cut between calls and their results. -/
theorem runTurn_history (hkeeps : KeepsHistory around view)
    (parse : String → Option Json.Value) (cfg : TurnConfig) (world : World)
    (hworld : Rounds (view world)) :
    let turn := runTurnMetered around parse cfg world
    Sent turn.trace ∧ (Rounds (view turn.world) ∨ Interrupted turn.trace) := by
  have hstart : Whole view ⟨world, TurnStats.new, []⟩ :=
    ⟨fun _ _ _ hmem => absurd hmem List.not_mem_nil, hworld⟩
  obtain ⟨hok, herror⟩ := whole_turnLoop hkeeps parse cfg _ hstart
  rw [runTurnMetered]
  rcases hrun : turnLoop around parse cfg ⟨world, .new, []⟩ with ⟨result, final⟩
  cases result with
  | ok output => exact (hok output final hrun).ended
  | error error => exact herror error final hrun

end Turn

end Kitaebot.Agent
