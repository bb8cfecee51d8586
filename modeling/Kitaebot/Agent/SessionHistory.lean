import Kitaebot.Agent.TurnHistory
import Kitaebot.Context.FlatSession
import Kitaebot.Core.Run

/-!
# The histories of sessions

Turns, commands and switches act on the sessions of the flat engine.  As long as no
turn is cut between calls and their results, every request of every turn carries a
history that the provider accepts.  A sub-agent's turn starts from nothing and cannot
fail that condition.
-/

namespace Kitaebot.Agent

open Context (FlatSession Directory truncateToolOutput)

/-- A session kept in memory. -/
structure MemoryEngine (Engine : Type) where
  session : Engine → List Message
  pushMessage : Message → Engine → Engine
  /-- Nothing to compact, or what becomes of the summary. -/
  compactIfUrgent : Engine →
    Option (Except String String → Except String (Option (ℕ × ℕ)) × Engine)
  observeTokens : ℕ → Engine → Engine

/-- Everything around a turn that is not its engine. -/
structure Others (Rest : Type) where
  isCancelled : Rest → Bool × Rest
  summarize : List Message → Rest → Except String String × Rest
  chatCompletions : List Message → List ToolDefinition → Rest →
    Option (Except ProviderError ChatResponse) × Rest
  sleep : ℕ → Rest → Option Unit × Rest
  executeAll : (calls : List ToolCall) → Rest → Option (RoundResults calls) × Rest

/-- Pass on what the rest of the world answers. -/
def onRest {Engine Rest Value : Type} (question : Rest → Value × Rest)
    (world : Engine × Rest) : Value × (Engine × Rest) :=
  ((question world.2).1, (world.1, (question world.2).2))

def surroundings {Engine Rest : Type} (engine : MemoryEngine Engine) (others : Others Rest) :
    Surroundings (Engine × Rest) where
  isCancelled := onRest others.isCancelled
  pushMessage message world := (.ok (), (engine.pushMessage message world.1, world.2))
  compactIfUrgent world :=
    match engine.compactIfUrgent world.1 with
    | none => (.ok none, world)
    | some compact =>
        let (summary, rest) := others.summarize (engine.session world.1) world.2
        ((compact summary).1, ((compact summary).2, rest))
  assemble systemPrompt world :=
    (.ok (.system systemPrompt :: engine.session world.1), world)
  chatCompletions messages tools := onRest (others.chatCompletions messages tools)
  sleep delay := onRest (others.sleep delay)
  observeRequest _ _ world := world
  observeTokens tokens world := (engine.observeTokens tokens world.1, world.2)
  executeAll calls := onRest (others.executeAll calls)

/-- The engine keeps what is pushed, and compacts to whole rounds. -/
structure MemoryEngine.Keeps {Engine : Type} (engine : MemoryEngine Engine) : Prop where
  push : ∀ message state, ∃ stored, SameCalls message stored ∧
    engine.session (engine.pushMessage message state) = engine.session state ++ [stored]
  compact : ∀ state compact, engine.compactIfUrgent state = some compact →
    Rounds (engine.session state) → ∀ summary, Rounds (engine.session (compact summary).2)
  observeTokens : ∀ tokens state,
    engine.session (engine.observeTokens tokens state) = engine.session state

theorem keepsHistory_surroundings {Engine Rest : Type} {engine : MemoryEngine Engine}
    (hengine : engine.Keeps) (others : Others Rest) :
    KeepsHistory (surroundings engine others) fun world => engine.session world.1 where
  isCancelled _ := rfl
  push message world := by
    obtain ⟨stored, hsame, hsession⟩ := hengine.push message world.1
    exact ⟨stored, _, rfl, hsame, hsession⟩
  compact world hworld := by
    simp only [surroundings]
    cases hcompact : engine.compactIfUrgent world.1 with
    | none => exact hworld
    | some compact => exact hengine.compact _ _ hcompact hworld _
  assembled _ _ := rfl
  request prompt world messages hmessages hworld := by
    have hprompt : Rounds [.system prompt] := rfl
    rw [← Except.ok.inj hmessages]
    exact hprompt.append hworld
  chatCompletions _ _ _ := rfl
  sleep _ _ := rfl
  observeRequest _ _ _ := rfl
  observeTokens tokens world := hengine.observeTokens tokens world.1
  executeAll _ _ := rfl

/-! ### A sub-agent's session -/

structure EphemeralSession where
  messages : List Message
  toolOutputTokens : ℕ

namespace EphemeralSession

def new (toolOutputTokens : ℕ) : EphemeralSession := ⟨[], toolOutputTokens⟩

def intake (toolOutputTokens : ℕ) : Message → Message
  | .tool callId content => .tool callId (truncateToolOutput content toolOutputTokens)
  | message => message

/-- Nothing persists and nothing compacts. -/
def memory : MemoryEngine EphemeralSession where
  session := messages
  pushMessage message engine :=
    { engine with messages := engine.messages ++ [intake engine.toolOutputTokens message] }
  compactIfUrgent _ := none
  observeTokens _ engine := engine

theorem keeps_memory : memory.Keeps where
  push message engine := by
    refine ⟨intake engine.toolOutputTokens message, fun pending => ?_, rfl⟩
    cases message <;> cases pending <;> rfl
  compact _ _ hcompact := by cases hcompact
  observeTokens _ _ := rfl

end EphemeralSession

/-- Every request of a sub-agent's turn carries whole rounds. -/
theorem subAgent_history {Rest : Type} (others : Others Rest)
    (parse : String → Option Json.Value) (cfg : TurnConfig) (toolOutputTokens : ℕ)
    (rest : Rest) :
    Sent (runTurnMetered (surroundings EphemeralSession.memory others) parse cfg
      (EphemeralSession.new toolOutputTokens, rest)).trace := by
  have hkeeps := keepsHistory_surroundings EphemeralSession.keeps_memory others
  exact (runTurn_history hkeeps parse cfg (EphemeralSession.new toolOutputTokens, rest)
    rfl).1

/-! ### The sessions of the flat engine -/

namespace Flat

/-- The same files, and the same session active. -/
structure SamePlace (base engine : FlatSession) : Prop where
  directory : engine.directory = base.directory
  activeName : engine.activeName = base.activeName

/-- The engine while a turn runs, from what it was at the start. -/
def Running (base : FlatSession) : Type :=
  { engine : FlatSession // SamePlace base engine }

theorem SamePlace.doCompact {base engine : FlatSession} (hplace : SamePlace base engine)
    (summary : Except String String) : SamePlace base (engine.doCompact summary).2 := by
  simp only [FlatSession.doCompact]
  split
  · exact hplace
  · cases summary with
    | error error => exact hplace
    | ok summary => exact ⟨hplace.directory, hplace.activeName⟩

theorem rounds_doCompact {engine : FlatSession} (hengine : Rounds engine.session)
    (summary : Except String String) : Rounds (engine.doCompact summary).2.session := by
  simp only [FlatSession.doCompact]
  split
  · exact hengine
  · cases summary with
    | error error => exact hengine
    | ok summary => exact rfl

def compactIfUrgent {base : FlatSession} (engine : Running base) :
    Option (Except String String →
      Except String (Option (ℕ × ℕ)) × Running base) :=
  if engine.1.currentTokens ≤ engine.1.budget ∨ engine.1.session.length < 2 then none
  else some fun summary =>
    ((engine.1.doCompact summary).1.map fun event =>
        event.map fun event => (event.before, event.after),
      ⟨(engine.1.doCompact summary).2, engine.2.doCompact summary⟩)

def memory (base : FlatSession) : MemoryEngine (Running base) where
  session engine := engine.1.session
  pushMessage message engine :=
    ⟨engine.1.pushMessage message, engine.2.directory, engine.2.activeName⟩
  compactIfUrgent := compactIfUrgent
  observeTokens tokens engine :=
    ⟨engine.1.observeTokens tokens, engine.2.directory, engine.2.activeName⟩

theorem keeps_memory (base : FlatSession) : (memory base).Keeps where
  push message engine := by
    refine ⟨FlatSession.intake engine.1.ctx message, fun pending => ?_, rfl⟩
    cases message <;> cases pending <;> rfl
  compact engine compact hcompact hengine summary := by
    simp only [memory, compactIfUrgent] at hcompact
    split at hcompact
    · cases hcompact
    · cases hcompact
      exact rounds_doCompact hengine summary
  observeTokens _ _ := rfl

def clear (engine : FlatSession) : FlatSession :=
  { engine with session := [], observedTokens := none }

/-- The engine of a new installation. -/
def fresh (ctx : Context.ContextConfig) : FlatSession where
  session := []
  activeName := "general"
  sanitized := by decide
  directory := .empty
  cursor := none
  ctx := ctx
  observedTokens := none

/-- What happens to the sessions. -/
inductive Event (Rest : Type) where
  | turn (others : Others Rest) (cfg : TurnConfig)
  | compact (summary : Except String String)
  | clear
  | save
  | switchSession (name : String)

section Sessions

variable {Rest : Type} (parse : String → Option Json.Value)

def runTurn (world : FlatSession × Rest) (others : Others Rest) (cfg : TurnConfig) :
    TurnRecord (Running world.1 × Rest) :=
  runTurnMetered (surroundings (memory world.1) others) parse cfg
    (⟨world.1, rfl, rfl⟩, world.2)

def step (world : FlatSession × Rest) : Event Rest → FlatSession × Rest
  | .turn others cfg =>
      let turn := runTurn parse world others cfg
      (turn.world.1.1, turn.world.2)
  | .compact summary => ((world.1.doCompact summary).2, world.2)
  | .clear => (clear world.1, world.2)
  | .save => (world.1.save, world.2)
  | .switchSession name => ((world.1.switchSession name).2, world.2)

/-- No turn is cut between calls and their results. -/
def Uncut (world : FlatSession × Rest) : Event Rest → Prop
  | .turn others cfg => ¬ Interrupted (runTurn parse world others cfg).trace
  | _ => True

/-- The session in memory and those in the files are whole. -/
structure AllWhole (engine : FlatSession) : Prop where
  session : Rounds engine.session
  stored : ∀ name messages, engine.directory.load name = .ok messages → Rounds messages

theorem load_write (directory : Directory) (file : Context.SessionFile) (name : String) :
    (directory.write file).load name =
      if name = file.fileName then file.session else directory.load name := by
  rw [Directory.load, Directory.find?_write, Directory.load]
  split_ifs <;> rfl

theorem AllWhole.save {engine : FlatSession} (hengine : AllWhole engine) :
    AllWhole engine.save := by
  refine ⟨hengine.session, fun name messages hload => ?_⟩
  rw [FlatSession.save, load_write] at hload
  split_ifs at hload with hname
  · cases hload
    exact hengine.session
  · exact hengine.stored name messages hload

theorem AllWhole.switchSession {engine : FlatSession} (hengine : AllWhole engine)
    (name : String) : AllWhole (engine.switchSession name).2 := by
  rw [FlatSession.switchSession]
  split
  · exact hengine
  · cases hload : engine.save.directory.load
        (Context.sessionFileName (Context.sanitizeName name)) with
    | error error => exact hengine.save
    | ok session =>
        exact ⟨hengine.save.stored _ _ hload, hengine.save.stored⟩

theorem runTurn_whole {world : FlatSession × Rest} (hworld : Rounds world.1.session)
    (others : Others Rest) (cfg : TurnConfig) :
    Sent (runTurn parse world others cfg).trace ∧
      (Rounds (runTurn parse world others cfg).world.1.1.session ∨
        Interrupted (runTurn parse world others cfg).trace) :=
  runTurn_history (keepsHistory_surroundings (keeps_memory world.1) others) parse
    cfg (⟨world.1, rfl, rfl⟩, world.2) hworld

theorem allWhole_step {world : FlatSession × Rest} (hworld : AllWhole world.1)
    {event : Event Rest} (huncut : Uncut parse world event) :
    AllWhole (step parse world event).1 := by
  cases event with
  | turn others cfg =>
      have hturn := (runTurn_whole parse hworld.session others cfg).2
      refine ⟨hturn.resolve_right huncut, ?_⟩
      change ∀ name messages, (runTurn parse world others cfg).world.1.1.directory.load
        name = .ok messages → Rounds messages
      rw [(runTurn parse world others cfg).world.1.2.directory]
      exact hworld.stored
  | compact summary =>
      refine ⟨rounds_doCompact hworld.session summary, ?_⟩
      have hplace : SamePlace world.1 world.1 := ⟨rfl, rfl⟩
      change ∀ name messages, (world.1.doCompact summary).2.directory.load name =
        .ok messages → Rounds messages
      rw [(hplace.doCompact summary).directory]
      exact hworld.stored
  | clear =>
      have hempty : Rounds [] := rfl
      exact ⟨hempty, hworld.stored⟩
  | save => exact hworld.save
  | switchSession name =>
      simp only [step]
      exact hworld.switchSession name

/-- In every turn of every session, each request carries rounds that are whole, as long
as no earlier turn was cut between calls and their results. -/
theorem requests_whole (ctx : Context.ContextConfig) (rest : Rest)
    (events : List (Event Rest)) (others : Others Rest) (cfg : TurnConfig)
    (huncut : Run.Meets (step parse) (Uncut parse) (fresh ctx, rest) events) :
    Sent (runTurn parse (Run.run (step parse) (fresh ctx, rest) events) others
      cfg).trace := by
  have hstart : AllWhole (fresh ctx) := by
    refine ⟨rfl, fun name messages hload => ?_⟩
    cases hload
    rfl
  have hstep : ∀ (world : FlatSession × Rest) (event : Event Rest), AllWhole world.1 →
      Uncut parse world event → AllWhole (step parse world event).1 :=
    fun _ _ hworld huncut => allWhole_step parse hworld huncut
  have hworld := Run.invariant_of_meets hstep (show AllWhole (fresh ctx, rest).1 from hstart)
    huncut
  exact (runTurn_whole parse hworld.session others cfg).1

end Sessions

/-! ### A call and its result -/

/-- An endpoint that sends what it is told to, with tools that are not there. -/
def scriptedOthers : Others (List (Except ProviderError ChatResponse)) where
  isCancelled rest := (false, rest)
  summarize _ rest := (.ok "summary", rest)
  chatCompletions _ _ rest :=
    match rest with
    | [] => (some (.error (.network "closed")), [])
    | sent :: rest => (some sent, rest)
  sleep _ rest := (some (), rest)
  executeAll calls rest :=
    (some ⟨calls.map fun _ => .error (.notFound "exec"), List.length_map _⟩, rest)

def callThenText : List (Except ProviderError ChatResponse) :=
  [.ok ⟨[⟨none, some [⟨"1", "exec", "\x7b\x7d"⟩], none⟩], none, none⟩,
    .ok ⟨[⟨some "hello", none, none⟩], none, none⟩,
    .ok ⟨[⟨some "again", none, none⟩], none, none⟩]

def twoIterations : TurnConfig := ⟨"", "go", [], 2, .finalAnswer, .accept⟩

theorem requests_whole_callThenText :
    Sent (runTurn (fun _ => none) (Run.run (step fun _ => none)
      (fresh ⟨1000, 80, 100⟩, callThenText)
      [.turn scriptedOthers twoIterations, .switchSession "work", .switchSession "general"])
      scriptedOthers twoIterations).trace :=
  requests_whole (fun _ => none) ⟨1000, 80, 100⟩ callThenText
    [.turn scriptedOthers twoIterations, .switchSession "work", .switchSession "general"]
    scriptedOthers twoIterations ⟨(by decide +kernel : ¬ Interrupted _), trivial, trivial,
      trivial⟩

/-- Cut between the calls and their results, the turn leaves calls without them. -/
example : Interrupted (runTurn (fun _ => none) (fresh ⟨1000, 80, 100⟩, callThenText)
    { scriptedOthers with executeAll := fun _ rest => (none, rest) } twoIterations).trace := by
  decide

end Flat

end Kitaebot.Agent
