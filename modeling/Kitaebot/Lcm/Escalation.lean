import Kitaebot.Core.Text
import Kitaebot.Lcm.Compaction

/-!
# Three-level summarization

The escalation ladder of `summarize.rs` over one chunk, and the two ladders
`compaction.rs` climbs when the chunk also rides the main session's cache.  A
call to the model is its answer, `none` when the call fails.
-/

namespace Kitaebot

open Text

/-! ## The rendered conversation -/

def formatMessage : Message → String
  | .assistant content => "[assistant] " ++ content
  | .system content => "[system] " ++ content
  | .tool callId content => "[tool:" ++ callId ++ "] " ++ content
  | .toolCalls content calls => "[assistant] " ++ content ++
      String.join (calls.map fun call =>
        "\n  [tool_call] " ++ call.function.name.value ++ "(" ++
          call.function.arguments ++ ")")
  | .user content => "[user] " ++ content

def formatMessagesForSummary (messages : List Message) : String :=
  String.join (messages.map fun message => formatMessage message ++ "\n")

/-- What the rendering adds to the bytes a message's own estimate counts: its
line end, its role, and the frame of each call. -/
def renderOverhead : Message → ℕ
  | .assistant _ => 13
  | .system _ => 10
  | .tool callId _ => callId.utf8ByteSize + 9
  | .toolCalls _ calls => 13 + 17 * calls.length
  | .user _ => 8

/-- The bytes of the rendered conversation. -/
def renderedBytes (messages : List Message) : ℕ :=
  (messages.map fun message => message.charCount + renderOverhead message).sum

theorem utf8ByteSize_join (texts : List String) :
    (String.join texts).utf8ByteSize = (texts.map String.utf8ByteSize).sum := by
  induction texts with
  | nil => rfl
  | cons text texts ih =>
      rw [String.join_cons, String.utf8ByteSize_append, ih, List.map_cons,
        List.sum_cons]

theorem utf8ByteSize_calls (calls : List ToolCall) :
    (String.join (calls.map fun call =>
        "\n  [tool_call] " ++ call.function.name.value ++ "(" ++
          call.function.arguments ++ ")")).utf8ByteSize =
      (calls.map fun call => call.function.name.value.utf8ByteSize +
        call.function.arguments.utf8ByteSize).sum + 17 * calls.length := by
  have hopen : "\n  [tool_call] ".utf8ByteSize = 15 := by decide
  have hleft : "(".utf8ByteSize = 1 := by decide
  have hright : ")".utf8ByteSize = 1 := by decide
  rw [utf8ByteSize_join, List.map_map]
  induction calls with
  | nil => rfl
  | cons call calls ih =>
      simp only [List.map_cons, List.sum_cons, Function.comp_apply,
        String.utf8ByteSize_append, hopen, hleft, hright, List.length_cons, ih]
      omega

theorem utf8ByteSize_formatMessage (message : Message) :
    (formatMessage message ++ "\n").utf8ByteSize =
      message.charCount + renderOverhead message := by
  have hend : "\n".utf8ByteSize = 1 := by decide
  have hassistant : "[assistant] ".utf8ByteSize = 12 := by decide
  have hsystem : "[system] ".utf8ByteSize = 9 := by decide
  have htool : "[tool:".utf8ByteSize = 6 := by decide
  have hclose : "] ".utf8ByteSize = 2 := by decide
  have huser : "[user] ".utf8ByteSize = 7 := by decide
  cases message with
  | assistant content =>
      simp only [formatMessage, renderOverhead, Message.charCount,
        Message.content, String.utf8ByteSize_append, hassistant, hend]
      omega
  | system content =>
      simp only [formatMessage, renderOverhead, Message.charCount,
        Message.content, String.utf8ByteSize_append, hsystem, hend]
      omega
  | tool callId content =>
      simp only [formatMessage, renderOverhead, Message.charCount,
        Message.content, String.utf8ByteSize_append, htool, hclose, hend]
      omega
  | toolCalls content calls =>
      simp only [formatMessage, renderOverhead, Message.charCount,
        String.utf8ByteSize_append, hassistant, hend, utf8ByteSize_calls]
      omega
  | user content =>
      simp only [formatMessage, renderOverhead, Message.charCount,
        Message.content, String.utf8ByteSize_append, huser, hend]
      omega

theorem utf8ByteSize_formatMessages (messages : List Message) :
    (formatMessagesForSummary messages).utf8ByteSize =
      renderedBytes messages := by
  rw [formatMessagesForSummary, utf8ByteSize_join, List.map_map]
  apply congrArg List.sum
  apply List.map_congr_left
  intro message _
  exact utf8ByteSize_formatMessage message

namespace Lcm

/-! ## The ladder -/

/-- Hard cap for level-3 deterministic truncation, in estimated tokens. -/
def level3TokenBudget : ℕ := 512

def degenerateFloorChars : ℕ := 500

def degenerateFloorMinInputChars : ℕ := 4 * degenerateFloorChars

def estimateMessagesTokens (messages : List Message) : ℕ :=
  (messages.map Message.tokenEstimate).sum

/-- The output estimate of a summary that compresses and is not degenerate. -/
def accept (content : String) (inputTokens : ℕ) : Option ℕ :=
  let outputTokens := estimateTokens content
  if inputTokens ≤ outputTokens then none
  else if content.utf8ByteSize < degenerateFloorChars ∧
      degenerateFloorMinInputChars ≤ inputTokens * 4 then none
  else some outputTokens

/-- The note under a truncated rendering. -/
def truncationNote (maxTokens inputTokens : ℕ) : String :=
  "\n\n[Truncated from " ++ toString inputTokens ++ " tokens; " ++
    toString maxTokens ++ " tokens preserved.]"

def truncateMessages (messages : List Message) (maxTokens inputTokens : ℕ) :
    String :=
  let formatted := formatMessagesForSummary messages
  let maxChars := maxTokens * 4
  if formatted.utf8ByteSize ≤ maxChars then formatted
  else leading formatted maxChars ++ truncationNote maxTokens inputTokens

/-- What the two LLM levels answer for one chunk. -/
structure LevelAnswers where
  level1 : Option String
  level2 : Option String
  deriving DecidableEq, Repr

/-- Level 1, then level 2, then deterministic truncation. -/
def summarizeWithEscalation (messages : List Message) (answers : LevelAnswers) :
    EscalationOutcome :=
  let inputTokens := estimateMessagesTokens messages
  let floor :=
    let content := truncateMessages messages level3TokenBudget inputTokens
    ⟨content, .deterministic, inputTokens, estimateTokens content⟩
  let second := match answers.level2 with
    | some content =>
        match accept content inputTokens with
        | some outputTokens => ⟨content, .aggressive, inputTokens, outputTokens⟩
        | none => floor
    | none => floor
  match answers.level1 with
  | some content =>
      match accept content inputTokens with
      | some outputTokens => ⟨content, .normal, inputTokens, outputTokens⟩
      | none => second
  | none => second

/-- The answers for one chunk: on the ride through the session's cache, where
there is one, and to the fresh prompt. -/
structure ChunkAnswers where
  ride : Option LevelAnswers
  fresh : LevelAnswers
  deriving DecidableEq, Repr

/-- A ride that ends in truncation is retried with a fresh prompt. -/
def summarizeChunk (messages : List Message) (answers : ChunkAnswers) :
    EscalationOutcome :=
  match answers.ride with
  | some ride =>
      let outcome := summarizeWithEscalation messages ride
      if outcome.level ≠ .deterministic then outcome
      else summarizeWithEscalation messages answers.fresh
  | none => summarizeWithEscalation messages answers.fresh

/-! ## What the ladder settles on -/

/-- The first answer the acceptance test lets through. -/
def firstAccepted (inputTokens : ℕ) : List (Option String) → Option String
  | [] => none
  | none :: rest => firstAccepted inputTokens rest
  | some content :: rest =>
      if (accept content inputTokens).isSome then some content
      else firstAccepted inputTokens rest

/-- The answers for one chunk in the order they are asked for. -/
def ChunkAnswers.inOrder (answers : ChunkAnswers) : List (Option String) :=
  (match answers.ride with
    | some ride => [ride.level1, ride.level2]
    | none => []) ++ [answers.fresh.level1, answers.fresh.level2]

/-- The estimate of the deterministic level: the rendering up to its cap, and
the note where the cap cuts. -/
def floorTokens (messages : List Message) : ℕ :=
  let formatted := formatMessagesForSummary messages
  if renderedBytes messages ≤ 2048 then renderedBytes messages / 4
  else ((leading formatted 2048).utf8ByteSize +
    (truncationNote 512 (estimateMessagesTokens messages)).utf8ByteSize) / 4

theorem accept_eq_some {content : String} {inputTokens outputTokens : ℕ}
    (haccept : accept content inputTokens = some outputTokens) :
    outputTokens = estimateTokens content ∧ outputTokens < inputTokens := by
  simp only [accept] at haccept
  split at haccept
  · cases haccept
  · next hsmaller =>
      split at haccept
      · cases haccept
      · have houtput := Option.some.inj haccept
        omega

theorem estimateTokens_truncate (messages : List Message) :
    estimateTokens (truncateMessages messages level3TokenBudget
        (estimateMessagesTokens messages)) = floorTokens messages := by
  have hbytes := utf8ByteSize_formatMessages messages
  have hcap : 512 * 4 = 2048 := rfl
  simp only [truncateMessages, floorTokens, level3TokenBudget, hbytes, hcap]
  split
  · rw [estimateTokens, estimateTokensFromChars, hbytes]
  · rw [estimateTokens, estimateTokensFromChars, String.utf8ByteSize_append]

/-- The ladder settles on the first accepted answer or on the floor. -/
theorem summarizeWithEscalation_cases (messages : List Message)
    (answers : LevelAnswers) :
    let inputTokens := estimateMessagesTokens messages
    let outcome := summarizeWithEscalation messages answers
    outcome.inputTokens = inputTokens ∧
      match firstAccepted inputTokens [answers.level1, answers.level2] with
      | some content => outcome.level ≠ .deterministic ∧
          outcome.content = content ∧
          outcome.outputTokens = estimateTokens content ∧
          outcome.outputTokens < inputTokens
      | none => outcome.level = .deterministic ∧
          outcome.outputTokens = floorTokens messages := by
  obtain ⟨level1, level2⟩ := answers
  have hsecond : ∀ level2 : Option String,
      let inputTokens := estimateMessagesTokens messages
      let outcome := summarizeWithEscalation messages ⟨none, level2⟩
      outcome.inputTokens = inputTokens ∧
        match firstAccepted inputTokens [level2] with
        | some content => outcome.level ≠ .deterministic ∧
            outcome.content = content ∧
            outcome.outputTokens = estimateTokens content ∧
            outcome.outputTokens < inputTokens
        | none => outcome.level = .deterministic ∧
            outcome.outputTokens = floorTokens messages := by
    intro level2
    cases level2 with
    | none =>
        simp only [summarizeWithEscalation, firstAccepted]
        exact ⟨trivial, trivial, estimateTokens_truncate messages⟩
    | some content =>
        cases haccept : accept content (estimateMessagesTokens messages) with
        | none =>
            simp only [summarizeWithEscalation, firstAccepted, haccept,
              Option.isSome_none, Bool.false_eq_true, if_false]
            exact ⟨trivial, trivial, estimateTokens_truncate messages⟩
        | some outputTokens =>
            simp only [summarizeWithEscalation, firstAccepted, haccept,
              Option.isSome_some, if_true]
            refine ⟨trivial, ?_, trivial, ?_⟩
            · simp
            · exact accept_eq_some haccept
  cases level1 with
  | none => exact hsecond level2
  | some content =>
      cases haccept : accept content (estimateMessagesTokens messages) with
      | none =>
          have hskip : summarizeWithEscalation messages ⟨some content, level2⟩ =
              summarizeWithEscalation messages ⟨none, level2⟩ := by
            simp only [summarizeWithEscalation, haccept]
          have hnext : firstAccepted (estimateMessagesTokens messages)
                [some content, level2] =
              firstAccepted (estimateMessagesTokens messages) [level2] := by
            rw [firstAccepted, haccept]
            rfl
          simp only [hskip, hnext]
          exact hsecond level2
      | some outputTokens =>
          simp only [summarizeWithEscalation, firstAccepted, haccept,
            Option.isSome_some, if_true]
          refine ⟨trivial, ?_, trivial, ?_⟩
          · simp
          · exact accept_eq_some haccept

theorem firstAccepted_append (inputTokens : ℕ)
    (first second : List (Option String)) :
    firstAccepted inputTokens (first ++ second) =
      (firstAccepted inputTokens first).or (firstAccepted inputTokens second) := by
  induction first with
  | nil => rfl
  | cons answer first ih =>
      cases answer with
      | none => exact ih
      | some content =>
          rw [List.cons_append, firstAccepted, firstAccepted]
          split
          · rfl
          · exact ih

/-- What a chunk settles on, over both ladders. -/
theorem summarizeChunk_cases (messages : List Message) (answers : ChunkAnswers) :
    let inputTokens := estimateMessagesTokens messages
    let outcome := summarizeChunk messages answers
    outcome.inputTokens = inputTokens ∧
      match firstAccepted inputTokens answers.inOrder with
      | some content => outcome.level ≠ .deterministic ∧
          outcome.content = content ∧
          outcome.outputTokens = estimateTokens content ∧
          outcome.outputTokens < inputTokens
      | none => outcome.level = .deterministic ∧
          outcome.outputTokens = floorTokens messages := by
  obtain ⟨ride, fresh⟩ := answers
  have hfresh := summarizeWithEscalation_cases messages fresh
  cases ride with
  | none =>
      simp only [summarizeChunk, ChunkAnswers.inOrder, List.nil_append]
      exact hfresh
  | some ride =>
      have hride := summarizeWithEscalation_cases messages ride
      simp only [summarizeChunk, ChunkAnswers.inOrder, firstAccepted_append]
      cases haccepted : firstAccepted (estimateMessagesTokens messages)
          [ride.level1, ride.level2] with
      | none =>
          simp only [haccepted] at hride
          rw [if_neg (by simp [hride.2.1]), Option.none_or]
          exact hfresh
      | some content =>
          simp only [haccepted] at hride
          rw [if_pos hride.2.1, Option.some_or]
          exact hride

/-- The text a chunk settles on is within a budget: the first accepted answer,
or the floor where no answer is accepted. -/
def Settles (messages : List Message) (answers : ChunkAnswers) (budget : ℕ) :
    Prop :=
  (match firstAccepted (estimateMessagesTokens messages) answers.inOrder with
    | some content => estimateTokens content
    | none => floorTokens messages) ≤ budget

instance (messages : List Message) (answers : ChunkAnswers) (budget : ℕ) :
    Decidable (Settles messages answers budget) :=
  inferInstanceAs (Decidable (_ ≤ _))

theorem outputTokens_le_iff (messages : List Message) (answers : ChunkAnswers)
    (budget : ℕ) :
    (summarizeChunk messages answers).outputTokens ≤ budget ↔
      Settles messages answers budget := by
  obtain ⟨_, hcases⟩ := summarizeChunk_cases messages answers
  unfold Settles
  cases haccepted : firstAccepted (estimateMessagesTokens messages)
      answers.inOrder with
  | some content =>
      simp only [haccepted] at hcases
      rw [hcases.2.2.1]
  | none =>
      simp only [haccepted] at hcases
      rw [hcases.2]

/-- Within its own input, an accepted answer always is. -/
theorem settles_input_iff (messages : List Message) (answers : ChunkAnswers) :
    Settles messages answers (estimateMessagesTokens messages) ↔
      (firstAccepted (estimateMessagesTokens messages)
          answers.inOrder).isSome = true ∨
        floorTokens messages ≤ estimateMessagesTokens messages := by
  obtain ⟨_, hcases⟩ := summarizeChunk_cases messages answers
  unfold Settles
  cases haccepted : firstAccepted (estimateMessagesTokens messages)
      answers.inOrder with
  | some content =>
      simp only [haccepted] at hcases
      have hlt := hcases.2.2.2
      rw [hcases.2.2.1] at hlt
      simp [hlt.le]
  | none => simp

end Lcm

end Kitaebot
