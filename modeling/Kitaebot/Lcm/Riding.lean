import Kitaebot.Agent.TurnLoop
import Kitaebot.Context.Names
import Kitaebot.Core.Commands
import Kitaebot.Core.Occurrence
import Kitaebot.Core.Run
import Kitaebot.Lcm.Escalation

/-!
# Riding the cache of the last request

A chunk that aligns with the last completed request is summarized by a request
that repeats it up to the chunk's end.  The guards on the session and on the age
are checked once for a compaction cycle, the alignment for each chunk.
-/

namespace Kitaebot.Lcm.Riding

open Agent Context Dialogue Occurrence

/-! ### The summarization of one chunk -/

/-- Prose that keeps the specifics. -/
def level1Prompt : String :=
  "You are summarizing a SEGMENT of an agent conversation for future model " ++
    "turns. Treat this as incremental memory compaction input, not a " ++
    "full-conversation summary.\n\nNormal summary policy:\n" ++
    "- Preserve key decisions, rationale, constraints, and active tasks.\n" ++
    "- Keep essential technical details needed to continue work safely.\n" ++
    "- Preserve specifics: file paths, commands, tool names and their outcomes, " ++
    "open questions.\n" ++
    "- Preserve any <file id=\"...\"> reference tags exactly as they appear.\n" ++
    "- Include timestamps for key decisions if they appear in the input.\n" ++
    "- Remove obvious repetition, conversational filler, and verbose tool output " ++
    "(the originals remain on disk).\n\nOutput requirements:\n" ++
    "- Plain text only. No preamble, headings, or markdown formatting.\n" ++
    "- Include a \"Files:\" line tracking file operations (created, modified, " ++
    "deleted, renamed). Each entry: the path plus a short clause on why it " ++
    "matters, e.g. \"src/exec.rs (modified: added retry wrapper)\".\n" ++
    "- If no file operations appear, include exactly: \"Files: none\".\n" ++
    "- End with exactly: \"Expand for details about: <comma-separated list of what " ++
    "was dropped or compressed>\"."

/-- Terse bullets. -/
def level2Prompt : String :=
  "You are aggressively summarizing a SEGMENT of an agent conversation for " ++
    "future model turns. The level-1 summary was rejected for being too long; " ++
    "produce something tighter.\n\nAggressive summary policy:\n" ++
    "- Keep only durable facts and current task state.\n" ++
    "- One bullet per key decision or outcome where useful.\n" ++
    "- Drop everything that is not load-bearing.\n" ++
    "- Preserve explicit TODOs, blockers, decisions, and constraints.\n" ++
    "- Preserve any <file id=\"...\"> reference tags exactly as they appear.\n" ++
    "- Aim for the smallest summary that still lets a future reader reconstruct " ++
    "what happened. Originals remain available via lcm_grep and lcm_expand if " ++
    "details are needed.\n\nOutput requirements:\n" ++
    "- Plain text only. No preamble, headings, or markdown formatting.\n" ++
    "- Include a \"Files:\" line tracking file operations (created, modified, " ++
    "deleted, renamed). Each entry: the path plus a short clause on why it " ++
    "matters, e.g. \"src/exec.rs (modified: added retry wrapper)\".\n" ++
    "- If no file operations appear, include exactly: \"Files: none\".\n" ++
    "- End with exactly: \"Expand for details about: <comma-separated list of what " ++
    "was dropped or compressed>\"."

/-- The end of the chunk's last run inside the sent messages. -/
def prefixEnd (sent chunk : List Message) : Option ℕ :=
  if chunk.isEmpty ∨ sent.length < chunk.length then none
  else (rposition (· == chunk) (windows chunk.length sent)).map (· + chunk.length)

/-- The trailing instruction of a ride.  `debug` quotes a text. -/
def rideInstruction (debug : String → String) (levelPrompt : String)
    (chunk : List Message) : String :=
  let anchor := (chunk.head?.map fun message =>
    String.ofList (message.content.toList.take 80)).getD ""
  "COMPACTION REQUEST — this turn is out of band. Ignore any pending tasks above " ++
    "and do not call tools; reply with the summary text only.\nThe segment to " ++
    "summarize is exactly the final " ++ toString chunk.length ++ " messages of the " ++
    "conversation above, beginning with the message that starts: " ++ debug anchor ++
    ". Everything before that segment is earlier context; do not summarize it.\n\n" ++
    levelPrompt

/-- The request the agent loop last completed. -/
structure SentRequest where
  session : String
  messages : List Message
  tools : List ToolDefinition
  /-- In nanoseconds. -/
  sentAt : ℕ

/-- A call of a model: the main one after a sent prefix, or the summarizer. -/
inductive Call where
  | ride (session : String) (request : List Message) (tools : List ToolDefinition)
  | fresh (prompt : String) (messages : List Message)

/-- A failed call answers nothing. -/
abbrev Script := Dialogue Call (Option String) Empty

/-- The outcome of a level whose answer is accepted. -/
def settled (level : EscalationLevel) (inputTokens : ℕ) (answer : Option String) :
    Option EscalationOutcome :=
  match answer with
  | some content =>
      match accept content inputTokens with
      | some outputTokens => some ⟨content, level, inputTokens, outputTokens⟩
      | none => none
  | none => none

/-- `summarize_with_escalation`, one call for each level. -/
def climb (messages : List Message) (call : String → Call) : Script EscalationOutcome :=
  let inputTokens := estimateMessagesTokens messages
  .ask (call level1Prompt) fun first =>
    match settled .normal inputTokens first with
    | some outcome => .done outcome
    | none => .ask (call level2Prompt) fun second =>
        match settled .aggressive inputTokens second with
        | some outcome => .done outcome
        | none =>
            let content := truncateMessages messages level3TokenBudget inputTokens
            .done ⟨content, .deterministic, inputTokens, estimateTokens content⟩

def summarizeChunk (debug : String → String) (ride : Option SentRequest)
    (messages : List Message) : Script EscalationOutcome :=
  let fresh := climb messages fun prompt => .fresh prompt messages
  match ride with
  | some snapshot =>
      match prefixEnd snapshot.messages messages with
      | some stop => do
          let outcome ← climb messages fun prompt =>
            .ride snapshot.session
              (snapshot.messages.take stop ++ [.user (rideInstruction debug prompt messages)])
              snapshot.tools
          if outcome.level ≠ .deterministic then pure outcome else fresh
      | none => fresh
  | none => fresh

/-! ### The engine -/

/-- Two minutes. -/
def snapshotMaxAge : ℕ := 120000000000

structure Engine where
  activeName : String
  lastSent : Option SentRequest

namespace Engine

variable (engine : Engine)

def observeRequest (messages : List Message) (tools : List ToolDefinition) (now : ℕ) :
    Engine :=
  { engine with lastSent := some ⟨engine.activeName, messages, tools, now⟩ }

def switchSession (name : String) : Engine :=
  { engine with activeName := sanitizeName name }

@[simp]
theorem lastSent_switchSession (name : String) :
    (engine.switchSession name).lastSent = engine.lastSent := by
  rw [switchSession]

/-- The snapshot a cycle that begins now may ride. -/
def rideContext (now : ℕ) : Option SentRequest :=
  match engine.lastSent with
  | none => none
  | some snapshot =>
      if snapshot.session ≠ engine.activeName then none
      else if snapshotMaxAge < now - snapshot.sentAt then none
      else some snapshot

end Engine

/-! ### Runs -/

abbrev Step := Exchange ℕ Call (Option String)

/-- A call takes any time and may answer anything. -/
def Answers (now : ℕ) (_ : Call) (_ : Option String) (later : ℕ) : Prop :=
  now ≤ later

/-- One chunk of a cycle with its calls; no outcome if it was cut off. -/
structure Part where
  chunk : List Message
  steps : List Step
  outcome : Option EscalationOutcome

/-- The chunks of a cycle in turn, which may be cut off at any call. -/
inductive Cycle (debug : String → String) (ride : Option SentRequest) :
    ℕ → List Part → ℕ → Prop
  | finished {now later : ℕ} (hlater : now ≤ later) : Cycle debug ride now [] later
  | chunk {now answered later final : ℕ} {messages : List Message} {steps : List Step}
      {outcome : EscalationOutcome} {parts : List Part}
      (plays : Plays Answers (summarizeChunk debug ride messages) now steps
        (.ok outcome) answered)
      (written : answered ≤ later) (onward : Cycle debug ride later parts final) :
      Cycle debug ride now (⟨messages, steps, some outcome⟩ :: parts) final
  | cut {now answered later : ℕ} {messages : List Message} {steps whole : List Step}
      {result : Except Empty EscalationOutcome}
      (plays : Plays Answers (summarizeChunk debug ride messages) now whole result
        answered) (early : steps <+: whole) (hlater : now ≤ later) :
      Cycle debug ride now [⟨messages, steps, none⟩] later

inductive Event where
  /-- The provider answered a request of the agent loop. -/
  | completed (sent : SentRequest)
  /-- A request of the agent loop failed or was cancelled. -/
  | lost (sent : SentRequest)
  | switched (name : String)
  | compacted (session : String) (began : ℕ) (parts : List Part)

/-- A process from its start, with the engine and the time it has come to. -/
inductive Run (debug : String → String) (name : String) :
    List Event → Engine → ℕ → Prop
  | opened (now : ℕ) : Run debug name [] ⟨name, none⟩ now
  | waited {events : List Event} {engine : Engine} {now later : ℕ}
      (onward : Run debug name events engine now) (hlater : now ≤ later) :
      Run debug name events engine later
  | completed {events : List Event} {engine : Engine} {now : ℕ}
      (onward : Run debug name events engine now) (messages : List Message)
      (tools : List ToolDefinition) :
      Run debug name
        (events ++ [.completed ⟨engine.activeName, messages, tools, now⟩])
        (engine.observeRequest messages tools now) now
  | lost {events : List Event} {engine : Engine} {now : ℕ}
      (onward : Run debug name events engine now) (messages : List Message)
      (tools : List ToolDefinition) :
      Run debug name (events ++ [.lost ⟨engine.activeName, messages, tools, now⟩])
        engine now
  | switched {events : List Event} {engine : Engine} {now : ℕ}
      (onward : Run debug name events engine now) (session : String) :
      Run debug name (events ++ [.switched session]) (engine.switchSession session) now
  | compacted {events : List Event} {engine : Engine} {now later : ℕ} {parts : List Part}
      (onward : Run debug name events engine now)
      (cycle : Cycle debug (engine.rideContext now) now parts later) :
      Run debug name (events ++ [.compacted engine.activeName now parts]) engine later

/-- The last request that was completed. -/
def LastCompleted (events : List Event) (sent : SentRequest) : Prop :=
  ∃ early late, events = early ++ .completed sent :: late ∧
    ∀ other, .completed other ∉ late

/-- The call repeats the last completed request, made for the session and not long
before the cycle, up to the last run of the chunk, and adds one instruction. -/
def RidesLast (debug : String → String) (events : List Event) (session : String)
    (began : ℕ) (chunk : List Message) (call : Call) : Prop :=
  ∀ routed request tools, call = .ride routed request tools →
    ∃ sent before after prompt, LastCompleted events sent ∧ sent.session = session ∧
      began - sent.sentAt ≤ snapshotMaxAge ∧ routed = session ∧ tools = sent.tools ∧
        sent.messages = before ++ chunk ++ after ∧
          LastEnd sent.messages chunk (before ++ chunk).length ∧
            request = before ++ chunk ++ [.user (rideInstruction debug prompt chunk)]

/-- A truncation is accepted after both levels were tried with a fresh prompt. -/
def TriesFresh (part : Part) : Prop :=
  ∀ outcome, part.outcome = some outcome → outcome.level = .deterministic →
    ∀ prompt ∈ [level1Prompt, level2Prompt], ∃ step ∈ part.steps,
      step.command = .fresh prompt part.chunk

section Chunk

variable {debug : String → String} {ride : Option SentRequest}
  {sent chunk messages : List Message} {call : String → Call}

theorem prefixEnd_of_ne_nil (hchunk : chunk ≠ []) : prefixEnd sent chunk =
    (rposition (· == chunk) (windows chunk.length sent)).map (· + chunk.length) := by
  rw [prefixEnd]
  by_cases hlong : sent.length < chunk.length
  · rw [if_pos (.inr hlong)]
    have hnone : rposition (· == chunk) (windows chunk.length sent) = none := by
      apply rposition_windows_eq_none_iff.2
      rintro stop ⟨before, after, rfl, -⟩
      simp at hlong
      omega
    rw [hnone, Option.map_none]
  · rw [if_neg]
    simp [hchunk, hlong]

theorem prefixEnd_eq_some_iff (hchunk : chunk ≠ []) {stop : ℕ} :
    prefixEnd sent chunk = some stop ↔ LastEnd sent chunk stop := by
  rw [prefixEnd_of_ne_nil hchunk, Option.map_eq_some_iff]
  constructor
  · rintro ⟨start, hstart, rfl⟩
    exact rposition_windows_eq_some_iff.1 hstart
  · intro hlast
    obtain ⟨start, rfl⟩ := hlast.1.exists_start
    exact ⟨start, rposition_windows_eq_some_iff.2 hlast, rfl⟩

theorem prefixEnd_eq_none_iff (hchunk : chunk ≠ []) :
    prefixEnd sent chunk = none ↔ ∀ stop, ¬ EndsAt sent chunk stop := by
  rw [prefixEnd_of_ne_nil hchunk, Option.map_eq_none_iff]
  exact rposition_windows_eq_none_iff

theorem ne_nil_of_prefixEnd {stop : ℕ} (hstop : prefixEnd sent chunk = some stop) :
    chunk ≠ [] := by
  rintro rfl
  simp [prefixEnd] at hstop

theorem asks_climb :
    (climb messages call).Asks (fun asked => ∃ prompt, asked = call prompt) := by
  refine ⟨⟨level1Prompt, rfl⟩, fun first => ?_⟩
  dsimp only
  split
  · trivial
  · refine ⟨⟨level2Prompt, rfl⟩, fun second => ?_⟩
    dsimp only
    split
    · trivial
    · trivial

/-- What a ride of the chunk asks for, and what else is asked for it. -/
theorem asks_summarizeChunk :
    (summarizeChunk debug ride messages).Asks fun asked =>
      (∃ prompt, asked = .fresh prompt messages) ∨
        ∃ snapshot stop prompt, ride = some snapshot ∧
          prefixEnd snapshot.messages messages = some stop ∧
            asked = .ride snapshot.session (snapshot.messages.take stop ++
              [.user (rideInstruction debug prompt messages)]) snapshot.tools := by
  have hfresh : ∀ {allowed : Call → Prop}, (∀ prompt, allowed (.fresh prompt messages)) →
      (climb messages fun prompt => .fresh prompt messages).Asks allowed := by
    intro allowed hallowed
    apply asks_climb.mono
    rintro asked ⟨prompt, rfl⟩
    exact hallowed prompt
  unfold summarizeChunk
  cases ride with
  | none => exact hfresh fun prompt => .inl ⟨prompt, rfl⟩
  | some snapshot =>
      cases hstop : prefixEnd snapshot.messages messages with
      | none =>
          simp only [hstop]
          exact hfresh fun prompt => .inl ⟨prompt, rfl⟩
      | some stop =>
          simp only [hstop]
          apply Asks.bind
          · apply asks_climb.mono
            rintro asked ⟨prompt, rfl⟩
            exact .inr ⟨snapshot, stop, prompt, rfl, hstop, rfl⟩
          · intro outcome
            split
            · trivial
            · exact hfresh fun prompt => .inl ⟨prompt, rfl⟩

theorem settled_level {level : EscalationLevel} {inputTokens : ℕ} {answer : Option String}
    {outcome : EscalationOutcome} (hsettled : settled level inputTokens answer = some outcome) :
    outcome.level = level := by
  unfold settled at hsettled
  cases answer with
  | none => cases hsettled
  | some content =>
      simp only at hsettled
      split at hsettled
      · cases hsettled
        rfl
      · cases hsettled

variable {now later : ℕ} {steps : List Step} {outcome : EscalationOutcome}

/-- A ladder that bottoms out was climbed to its end. -/
theorem climb_deterministic
    (hplays : Plays Answers (climb messages call) now steps (.ok outcome) later)
    (hlevel : outcome.level = .deterministic) :
    ∀ prompt ∈ [level1Prompt, level2Prompt], ∃ step ∈ steps, step.command = call prompt := by
  obtain ⟨first, between, rest, -, hfirst, rfl⟩ := plays_ask.1 hplays
  cases hone : settled .normal (estimateMessagesTokens messages) first with
  | some accepted =>
      simp only [hone] at hfirst
      cases (plays_done.1 hfirst).2.1
      rw [settled_level hone] at hlevel
      cases hlevel
  | none =>
      simp only [hone] at hfirst
      obtain ⟨second, between', rest', -, -, rfl⟩ := plays_ask.1 hfirst
      intro prompt hprompt
      rcases List.mem_cons.1 hprompt with rfl | hprompt
      · exact ⟨_, List.mem_cons_self .., rfl⟩
      · rw [List.mem_singleton.1 hprompt]
        exact ⟨_, List.mem_cons_of_mem _ (List.mem_cons_self ..), rfl⟩

theorem summarizeChunk_deterministic
    (hplays : Plays Answers (summarizeChunk debug ride messages) now steps (.ok outcome)
      later) : TriesFresh ⟨messages, steps, some outcome⟩ := by
  intro accepted haccepted hlevel
  cases haccepted
  unfold summarizeChunk at hplays
  cases ride with
  | none => exact climb_deterministic hplays hlevel
  | some snapshot =>
      cases hstop : prefixEnd snapshot.messages messages with
      | none =>
          simp only [hstop] at hplays
          exact climb_deterministic hplays hlevel
      | some stop =>
          simp only [hstop] at hplays
          rcases plays_bind.1 hplays with
            ⟨ridden, between, early, late, -, hnext, rfl⟩ | ⟨error, -, -⟩
          · by_cases hridden : ridden.level ≠ .deterministic
            · rw [if_pos hridden] at hnext
              cases (plays_done.1 hnext).2.1
              exact absurd hlevel hridden
            · rw [if_neg hridden] at hnext
              intro prompt hprompt
              obtain ⟨step, hmem, hcommand⟩ := climb_deterministic hnext hlevel prompt hprompt
              exact ⟨step, List.mem_append_right early hmem, hcommand⟩
          · exact error.elim

theorem summarizeWithEscalation_eq (messages : List Message) (first second : Option String) :
    summarizeWithEscalation messages ⟨first, second⟩ =
      match settled .normal (estimateMessagesTokens messages) first with
      | some outcome => outcome
      | none =>
          match settled .aggressive (estimateMessagesTokens messages) second with
          | some outcome => outcome
          | none =>
              let content := truncateMessages messages level3TokenBudget
                (estimateMessagesTokens messages)
              ⟨content, .deterministic, estimateMessagesTokens messages,
                estimateTokens content⟩ := by
  have hsecond : ∀ second : Option String, (match second with
      | some content =>
          match accept content (estimateMessagesTokens messages) with
          | some outputTokens =>
              (⟨content, .aggressive, estimateMessagesTokens messages, outputTokens⟩ :
                EscalationOutcome)
          | none =>
              let content := truncateMessages messages level3TokenBudget
                (estimateMessagesTokens messages)
              ⟨content, .deterministic, estimateMessagesTokens messages,
                estimateTokens content⟩
      | none =>
          let content := truncateMessages messages level3TokenBudget
            (estimateMessagesTokens messages)
          ⟨content, .deterministic, estimateMessagesTokens messages,
            estimateTokens content⟩) =
      match settled .aggressive (estimateMessagesTokens messages) second with
      | some outcome => outcome
      | none =>
          let content := truncateMessages messages level3TokenBudget
            (estimateMessagesTokens messages)
          ⟨content, .deterministic, estimateMessagesTokens messages,
            estimateTokens content⟩ := by
    intro second
    cases second with
    | none => rfl
    | some content =>
        simp only [settled]
        cases accept content (estimateMessagesTokens messages) with
        | none => rfl
        | some outputTokens => rfl
  rw [← hsecond second]
  cases first with
  | none => rfl
  | some content =>
      simp only [settled, summarizeWithEscalation]
      cases accept content (estimateMessagesTokens messages) with
      | none => rfl
      | some outputTokens => rfl

/-- A played ladder ends as the ladder with the answers it got. -/
theorem climb_outcome
    (hplays : Plays Answers (climb messages call) now steps (.ok outcome) later) :
    ∃ answers, outcome = summarizeWithEscalation messages answers := by
  obtain ⟨first, between, rest, -, hfirst, rfl⟩ := plays_ask.1 hplays
  cases hone : settled .normal (estimateMessagesTokens messages) first with
  | some accepted =>
      simp only [hone] at hfirst
      cases (plays_done.1 hfirst).2.1
      refine ⟨⟨first, none⟩, ?_⟩
      rw [summarizeWithEscalation_eq, hone]
  | none =>
      simp only [hone] at hfirst
      obtain ⟨second, between', rest', -, hsecond, rfl⟩ := plays_ask.1 hfirst
      refine ⟨⟨first, second⟩, ?_⟩
      rw [summarizeWithEscalation_eq, hone]
      cases htwo : settled .aggressive (estimateMessagesTokens messages) second with
      | some accepted =>
          simp only [htwo] at hsecond
          cases (plays_done.1 hsecond).2.1
          rfl
      | none =>
          simp only [htwo] at hsecond
          cases (plays_done.1 hsecond).2.1
          rfl

/-- A chunk's outcome is that of the two ladders with the answers they got; there
is a ride exactly when the chunk aligns. -/
theorem summarizeChunk_outcome
    (hplays : Plays Answers (summarizeChunk debug ride messages) now steps (.ok outcome)
      later) : ∃ answers, outcome = Lcm.summarizeChunk messages answers ∧
        (answers.ride ≠ none → ∃ snapshot, ride = some snapshot ∧
          prefixEnd snapshot.messages messages ≠ none) := by
  have hfresh : Plays Answers (climb messages fun prompt => .fresh prompt messages) now steps
      (.ok outcome) later → ∃ answers, outcome = Lcm.summarizeChunk messages answers ∧
        (answers.ride ≠ none → ∃ snapshot, ride = some snapshot ∧
          prefixEnd snapshot.messages messages ≠ none) := by
    intro hclimb
    obtain ⟨answers, houtcome⟩ := climb_outcome hclimb
    exact ⟨⟨none, answers⟩, houtcome, fun hride => absurd rfl hride⟩
  unfold summarizeChunk at hplays
  cases ride with
  | none => exact hfresh hplays
  | some snapshot =>
      cases hstop : prefixEnd snapshot.messages messages with
      | none =>
          simp only [hstop] at hplays
          exact hfresh hplays
      | some stop =>
          simp only [hstop] at hplays
          rcases plays_bind.1 hplays with
            ⟨ridden, between, early, late, hride, hnext, rfl⟩ | ⟨error, -, -⟩
          swap
          · exact error.elim
          obtain ⟨first, hridden⟩ := climb_outcome hride
          by_cases hlevel : ridden.level ≠ .deterministic
          · rw [if_pos hlevel] at hnext
            cases (plays_done.1 hnext).2.1
            refine ⟨⟨some first, ⟨none, none⟩⟩, ?_, fun _ => ⟨snapshot, rfl, by simp [hstop]⟩⟩
            simp only [Lcm.summarizeChunk, ← hridden, if_pos hlevel]
          · rw [if_neg hlevel] at hnext
            obtain ⟨answers, houtcome⟩ := climb_outcome hnext
            refine ⟨⟨some first, answers⟩, ?_, fun _ => ⟨snapshot, rfl, by simp [hstop]⟩⟩
            simp only [Lcm.summarizeChunk, ← hridden, if_neg hlevel, houtcome]

end Chunk

/-! ### Whole runs -/

section Runs

variable {debug : String → String} {name : String} {events : List Event}
  {engine : Engine} {now : ℕ}

theorem rideContext_eq_some {snapshot : SentRequest}
    (hride : engine.rideContext now = some snapshot) :
    engine.lastSent = some snapshot ∧ snapshot.session = engine.activeName ∧
      now - snapshot.sentAt ≤ snapshotMaxAge := by
  unfold Engine.rideContext at hride
  split at hride
  · cases hride
  · next sent hsent =>
      split at hride
      · cases hride
      · next hsession =>
          split at hride
          · cases hride
          · next hage =>
              cases hride
              exact ⟨hsent, not_not.1 hsession, Nat.le_of_not_lt hage⟩

theorem LastCompleted.snoc {event : Event} {sent : SentRequest}
    (hlast : LastCompleted events sent) (hother : ∀ other, event ≠ .completed other) :
    LastCompleted (events ++ [event]) sent := by
  obtain ⟨early, late, rfl, hlate⟩ := hlast
  refine ⟨early, late ++ [event], by simp, fun other hmem => ?_⟩
  rcases List.mem_append.1 hmem with hmem | hmem
  · exact hlate other hmem
  · exact hother other (List.mem_singleton.1 hmem).symm

/-- The engine's snapshot is the last completed request. -/
theorem run_lastSent (hrun : Run debug name events engine now) :
    ∀ sent, engine.lastSent = some sent → LastCompleted events sent := by
  induction hrun with
  | opened =>
      intro sent hsent
      cases hsent
  | waited _ _ ih => exact ih
  | @completed events engine now =>
      intro sent hsent
      cases hsent
      exact ⟨events, [], rfl, by simp⟩
  | lost _ _ _ ih =>
      intro sent hsent
      apply (ih sent hsent).snoc
      intro other heq
      cases heq
  | switched _ _ ih =>
      intro sent hsent
      rw [Engine.lastSent_switchSession] at hsent
      apply (ih sent hsent).snoc
      intro other heq
      cases heq
  | compacted _ _ ih =>
      intro sent hsent
      apply (ih sent hsent).snoc
      intro other heq
      cases heq

/-- What holds of the calls of one chunk holds of every part of a cycle. -/
theorem Cycle.part {ride : Option SentRequest} {later : ℕ} {parts : List Part}
    (hcycle : Cycle debug ride now parts later) :
    ∀ part ∈ parts, ∃ began whole result answered,
      Plays Answers (summarizeChunk debug ride part.chunk) began whole result answered ∧
        part.steps <+: whole ∧ ∀ outcome, part.outcome = some outcome →
          result = .ok outcome ∧ part.steps = whole := by
  induction hcycle with
  | finished => simp
  | chunk plays _ _ ih =>
      apply List.forall_mem_cons.2 ⟨⟨_, _, _, _, plays, List.prefix_refl _, ?_⟩, ih⟩
      intro outcome houtcome
      cases houtcome
      exact ⟨rfl, rfl⟩
  | cut plays early =>
      intro part hmem
      rw [List.mem_singleton.1 hmem]
      refine ⟨_, _, _, _, plays, early, ?_⟩
      intro outcome houtcome
      cases houtcome

/-- One cycle on the engine's snapshot. -/
theorem cycle_rides (hrun : Run debug name events engine now) {later : ℕ}
    {parts : List Part} (hcycle : Cycle debug (engine.rideContext now) now parts later) :
    ∀ part ∈ parts,
      (∀ step ∈ part.steps,
        RidesLast debug events engine.activeName now part.chunk step.command) ∧
          TriesFresh part := by
  intro part hmem
  obtain ⟨began, whole, result, answered, hplays, hearly, hfull⟩ := hcycle.part part hmem
  constructor
  · rintro step hstep routed request tools hcall
    have hasked := hplays.asked asks_summarizeChunk step (hearly.subset hstep)
    rw [hcall] at hasked
    rcases hasked with ⟨prompt, hfresh⟩ | ⟨sent, stop, prompt, hride, hstop, hsame⟩
    · cases hfresh
    cases hsame
    obtain ⟨hsent, hsession, hage⟩ := rideContext_eq_some hride
    have hlast := (prefixEnd_eq_some_iff (ne_nil_of_prefixEnd hstop)).1 hstop
    obtain ⟨before, after, hmessages, rfl⟩ := hlast.1
    rw [← List.length_append] at hlast
    refine ⟨sent, before, after, prompt, run_lastSent hrun sent hsent, hsession, hage,
      hsession, rfl, hmessages, hlast, ?_⟩
    rw [hmessages, ← List.length_append, List.take_left]
  · intro outcome houtcome
    obtain ⟨rfl, hsteps⟩ := hfull outcome houtcome
    rw [← hsteps] at hplays
    exact summarizeChunk_deterministic hplays outcome rfl

/-- The end a chunk is looked up with is that of its last run in the sent messages,
and a ride in a run repeats the last completed request up to there; a truncation
is accepted only after a fresh prompt. -/
theorem rides_faithful (hrun : Run debug name events engine now) :
    (∀ sent chunk : List Message, chunk ≠ [] →
      (∀ stop, prefixEnd sent chunk = some stop ↔ LastEnd sent chunk stop) ∧
        (prefixEnd sent chunk = none ↔ ∀ stop, ¬ EndsAt sent chunk stop)) ∧
      ∀ early session began parts late,
        events = early ++ .compacted session began parts :: late → ∀ part ∈ parts,
          (∀ step ∈ part.steps,
            RidesLast debug early session began part.chunk step.command) ∧
              TriesFresh part := by
  refine ⟨fun sent chunk hchunk =>
    ⟨fun stop => prefixEnd_eq_some_iff hchunk, prefixEnd_eq_none_iff hchunk⟩, ?_⟩
  induction hrun with
  | opened => simp
  | waited _ _ ih => exact ih
  | completed _ _ _ ih =>
      intro early session began parts late hevents
      rcases Kitaebot.Run.snoc_eq_split hevents with ⟨-, heq⟩ | ⟨late', hinit⟩
      · cases heq
      · exact ih early session began parts late' hinit
  | lost _ _ _ ih =>
      intro early session began parts late hevents
      rcases Kitaebot.Run.snoc_eq_split hevents with ⟨-, heq⟩ | ⟨late', hinit⟩
      · cases heq
      · exact ih early session began parts late' hinit
  | switched _ _ ih =>
      intro early session began parts late hevents
      rcases Kitaebot.Run.snoc_eq_split hevents with ⟨-, heq⟩ | ⟨late', hinit⟩
      · cases heq
      · exact ih early session began parts late' hinit
  | compacted onward cycle ih =>
      intro early session began parts late hevents
      rcases Kitaebot.Run.snoc_eq_split hevents with ⟨rfl, heq⟩ | ⟨late', hinit⟩
      · cases heq
        exact cycle_rides onward cycle
      · exact ih early session began parts late' hinit

end Runs

/-- A request that was answered, and one after it that was not. -/
def answered : SentRequest := ⟨"general", [.user "a"], [], 0⟩

def unanswered : SentRequest := ⟨"general", [.user "b"], [], 0⟩

/-- The ride of the answered request with a level's prompt. -/
def rideOf (prompt : String) : Call :=
  .ride "general" ([.user "a"] ++ [.user (rideInstruction id prompt [.user "a"])]) []

/-- Both ladders fail, and the first call takes three minutes. -/
def slowSteps : List Step :=
  [⟨0, rideOf level1Prompt, none, 180000000000⟩,
    ⟨180000000000, rideOf level2Prompt, none, 180000000000⟩,
    ⟨180000000000, .fresh level1Prompt [.user "a"], none, 180000000000⟩,
    ⟨180000000000, .fresh level2Prompt [.user "a"], none, 180000000000⟩]

theorem slow_plays : ∃ outcome, outcome.level = .deterministic ∧
    Plays Answers (summarizeChunk id (some answered) [.user "a"]) 0 slowSteps
      (.ok outcome) 180000000000 := by
  have hreplay : replay (summarizeChunk id (some answered) [.user "a"]) 0
      (slowSteps.map fun step => (step.reply, step.after)) =
        some (slowSteps, .ok ⟨_, .deterministic, _, _⟩, 180000000000) := rfl
  refine ⟨_, rfl, plays_of_replay hreplay ?_⟩
  simp [slowSteps, Answers]

theorem slow_run : ∃ outcome, outcome.level = .deterministic ∧
    Run id "general" ([.completed answered, .lost unanswered] ++
      [.compacted "general" 0 [⟨[.user "a"], slowSteps, some outcome⟩]])
        ⟨"general", some answered⟩ 180000000000 := by
  obtain ⟨outcome, hlevel, hplays⟩ := slow_plays
  have hcompleted : Run id "general" ([] ++ [.completed answered])
      ⟨"general", some answered⟩ 0 := .completed (.opened 0) [.user "a"] []
  have hlost : Run id "general" ([.completed answered] ++ [.lost unanswered])
      ⟨"general", some answered⟩ 0 := .lost hcompleted [.user "b"] []
  have hride : (⟨"general", some answered⟩ : Engine).rideContext 0 = some answered := by
    simp [Engine.rideContext, answered]
  refine ⟨outcome, hlevel, .compacted hlost ?_⟩
  rw [hride]
  exact .chunk hplays (Nat.le_refl _) (.finished (Nat.le_refl _))

/-- A cycle in which both ladders of a riding chunk fail. -/
theorem slow_rides_faithful : ∃ outcome, outcome.level = .deterministic ∧
    RidesLast id [.completed answered, .lost unanswered] "general" 0 [.user "a"]
      (rideOf level1Prompt) ∧ TriesFresh ⟨[.user "a"], slowSteps, some outcome⟩ := by
  obtain ⟨outcome, hlevel, hrun⟩ := slow_run
  obtain ⟨hrides, htries⟩ := (rides_faithful hrun).2 _ "general" 0 _ [] rfl _
    (List.mem_singleton.2 rfl)
  exact ⟨outcome, hlevel, hrides _ (List.mem_cons_self ..), htries⟩

/-- An empty chunk is not found where it occurs; a ride is sent when its snapshot has
expired, and it does not repeat a later request that failed. -/
theorem ride_outlives_guards :
    (EndsAt [Message.user "a"] [] 0 ∧ prefixEnd [.user "a"] [] = none) ∧
      ∃ part engine now, Run id "general" ([.completed answered, .lost unanswered] ++
          [.compacted "general" 0 [part]]) engine now ∧
        ∃ step ∈ part.steps, ∃ request, step.command = .ride "general" request [] ∧
          snapshotMaxAge < step.before - answered.sentAt ∧
            ¬ request.dropLast <+: unanswered.messages := by
  obtain ⟨outcome, -, hrun⟩ := slow_run
  refine ⟨⟨⟨[], [.user "a"], rfl, rfl⟩, rfl⟩, _, _, _, hrun,
    ⟨180000000000, rideOf level2Prompt, none, 180000000000⟩, by simp [slowSteps], _, rfl,
    by decide, ?_⟩
  simp [unanswered, List.cons_prefix_cons]

end Kitaebot.Lcm.Riding
