import Kitaebot.Agent.TurnLoop

/-!
# Deeds

What the counters of a turn depend on: its requests, its held replies, its
rounds of calls and its checkpoints.  Most of what the loop does leaves them, the
billed usage and the hold flag alone.
-/

namespace Kitaebot.Agent

namespace TurnEvent

def isCheckpoint : TurnEvent → Bool
  | pushed (.system content) => content = midpointCheckpointDirective
  | _ => false

/-- Every event but an ordinary push. -/
def isDeed : TurnEvent → Bool
  | pushed message => isCheckpoint (pushed message)
  | _ => true

def isChat : TurnEvent → Bool
  | chat _ _ _ => true
  | _ => false

def isHeld : TurnEvent → Bool
  | held _ => true
  | _ => false

end TurnEvent

def deeds (trace : List TurnEvent) : List TurnEvent :=
  trace.filter TurnEvent.isDeed

theorem deeds_append (first second : List TurnEvent) :
    deeds (first ++ second) = deeds first ++ deeds second :=
  List.filter_append ..

/-- The message is not the halfway directive. -/
def Message.Ordinary (message : Message) : Prop :=
  message ≠ .system midpointCheckpointDirective

theorem Message.Ordinary.system {content : String}
    (hcontent : content ≠ midpointCheckpointDirective) :
    Message.Ordinary (.system content) :=
  fun hmessage => hcontent (Message.system.inj hmessage)

theorem isDeed_pushed {message : Message} (hmessage : Message.Ordinary message) :
    (TurnEvent.pushed message).isDeed = false := by
  cases message with
  | system content =>
      apply decide_eq_false
      rintro rfl
      exact hmessage rfl
  | _ => rfl

section Quiet

variable {World : Type} (around : Surroundings World)

def ledger (state : TurnState World) : TurnUsage × Bool × List TurnEvent :=
  (state.stats.usage, state.stats.nudged, deeds state.trace)

/-- The effect bills nothing, holds nothing and does no deed. -/
abbrev Quiet {Value : Type} (effect : TurnM World Value) : Prop :=
  Effect.Leaves ledger effect

theorem quiet_emit {event : TurnEvent} (hevent : event.isDeed = false) :
    Quiet (emit event : TurnM World Unit) := by
  apply Effect.Leaves.modify
  intro state
  simp only [ledger, deeds_append]
  simp [deeds, hevent]

theorem quiet_changeStats {change : TurnStats → TurnStats}
    (hchange : ∀ stats, (change stats).usage = stats.usage ∧
      (change stats).nudged = stats.nudged) :
    Quiet (changeStats change : TurnM World Unit) := by
  apply Effect.Leaves.modify
  intro state
  simp only [ledger, hchange]

theorem quiet_ask {Value : Type} (question : World → Except String Value × World) :
    Quiet (ask question) := by
  intro state result final hrun
  rw [ask] at hrun
  split at hrun <;>
  · obtain ⟨-, rfl⟩ := Prod.mk.inj hrun
    rfl

theorem quiet_cancelPoint : Quiet (cancelPoint around) := by
  intro state result final hrun
  rw [cancelPoint] at hrun
  split at hrun <;>
  · obtain ⟨-, rfl⟩ := Prod.mk.inj hrun
    rfl

theorem quiet_push {message : Message} (hmessage : Message.Ordinary message) :
    Quiet (push around message) :=
  .bind (quiet_ask _) fun _ => quiet_emit (isDeed_pushed hmessage)

theorem quiet_pushAnyway {message : Message} (hmessage : Message.Ordinary message) :
    Quiet (pushAnyway around message) := by
  intro state result final hrun
  rw [pushAnyway] at hrun
  split at hrun
  · obtain ⟨-, rfl⟩ := Prod.mk.inj hrun
    simp only [ledger, deeds_append]
    simp [deeds, isDeed_pushed hmessage]
  · obtain ⟨-, rfl⟩ := Prod.mk.inj hrun
    rfl

theorem quiet_observe (change : World → World) : Quiet (observe change) :=
  .modify fun _ => rfl

/-! ### Tool results -/

/-- The recording after one more result. -/
def recordOne (parse : String → Option Json.Value) (recording : Recording)
    (entry : ToolCall × ToolResult) : Recording :=
  (takeResult parse recording entry.1 entry.2).1

theorem takeResult_ordinary (parse : String → Option Json.Value)
    (recording : Recording) (call : ToolCall) (result : ToolResult) :
    Message.Ordinary (takeResult parse recording call result).2 := by
  intro hmessage
  cases result <;> cases hmessage

theorem quiet_recordToolResults (parse : String → Option Json.Value)
    (recording : Recording) (round : List (ToolCall × ToolResult)) :
    Quiet (recordToolResults around parse recording round) := by
  induction round generalizing recording with
  | nil => exact .pure recording
  | cons entry round ih =>
      exact .bind (quiet_pushAnyway around (takeResult_ordinary parse _ _ _))
        fun _ => ih _

/-- Recording a round goes through all its results, whatever the pushes do. -/
theorem recordToolResults_eq (parse : String → Option Json.Value)
    (recording : Recording) (round : List (ToolCall × ToolResult))
    (state : TurnState World) :
    (recordToolResults around parse recording round state).1 =
      .ok (round.foldl (recordOne parse) recording) := by
  induction round generalizing recording state with
  | nil => rfl
  | cons entry round ih =>
      obtain ⟨call, result⟩ := entry
      obtain ⟨after, hpush⟩ : ∃ after, pushAnyway around
          (takeResult parse recording call result).2 state = (.ok (), after) := by
        rw [pushAnyway]
        split
        · exact ⟨_, rfl⟩
        · exact ⟨_, rfl⟩
      rw [recordToolResults, Effect.bind_of_ok hpush, ih]
      rfl

/-- The texts of the hints. -/
def hintTexts : List String := [assertHint, rerunHint, staleEditHint]

theorem fire_texts {tracker : HintTracker} {kind : HintKind} {text hint : String}
    (htext : text ∈ hintTexts) (hfire : (tracker.fire kind text).2 = some hint) :
    hint ∈ hintTexts := by
  rw [HintTracker.fire] at hfire
  split at hfire
  · cases hfire
  · cases hfire
    exact htext

theorem observeText_texts {tracker : HintTracker} {result : ToolResult}
    {hint : String} (hhint : (tracker.observeText result).2 = some hint) :
    hint ∈ hintTexts := by
  have hobserve : tracker.observeText result = tracker.fire .assert assertHint ∨
      tracker.observeText result = (tracker, none) := by
    rw [HintTracker.observeText.eq_def]
    exact ite_eq_or_eq ..
  rcases hobserve with hfire | hnone
  · rw [hfire] at hhint
    exact fire_texts List.mem_cons_self hhint
  · rw [hnone] at hhint
    cases hhint

theorem observe_texts {parse : String → Option Json.Value} {tracker : HintTracker}
    {call : ToolCall} {result : ToolResult} {hint : String}
    (hhint : (tracker.observe parse call result).2 = some hint) :
    hint ∈ hintTexts := by
  unfold HintTracker.observe at hhint
  dsimp only at hhint
  split at hhint
  · split at hhint
    · exact observeText_texts hhint
    · split at hhint
      · split at hhint
        · exact fire_texts (by simp [hintTexts]) hhint
        · exact observeText_texts hhint
      · exact observeText_texts hhint
  · split at hhint
    · split at hhint
      · exact observeText_texts hhint
      · split at hhint
        · split at hhint
          · exact fire_texts (by simp [hintTexts]) hhint
          · exact observeText_texts hhint
        · exact observeText_texts hhint
    · exact observeText_texts hhint

theorem roundHints_recordOne (parse : String → Option Json.Value)
    {recording : Recording} (hrecording : ∀ hint ∈ recording.roundHints,
      hint ∈ hintTexts) (entry : ToolCall × ToolResult) :
    ∀ hint ∈ (recordOne parse recording entry).roundHints, hint ∈ hintTexts := by
  have hhints : (recordOne parse recording entry).roundHints =
      recording.roundHints ++
        (recording.hints.observe parse entry.1 entry.2).2.toList := by
    obtain ⟨call, result⟩ := entry
    cases result <;> rfl
  intro hint hmem
  rw [hhints, List.mem_append, Option.mem_toList] at hmem
  rcases hmem with hold | hnew
  · exact hrecording hint hold
  · exact observe_texts hnew

theorem roundHints_foldl (parse : String → Option Json.Value)
    (round : List (ToolCall × ToolResult)) {recording : Recording}
    (hrecording : ∀ hint ∈ recording.roundHints, hint ∈ hintTexts) :
    ∀ hint ∈ (round.foldl (recordOne parse) recording).roundHints,
      hint ∈ hintTexts := by
  induction round generalizing recording with
  | nil => exact hrecording
  | cons entry round ih => exact ih (roundHints_recordOne parse hrecording entry)

theorem hint_start {hint : String} (hhint : hint ∈ hintTexts) :
    Text.opens "Hint: " hint = true := by
  simp only [hintTexts, List.mem_cons, List.not_mem_nil, or_false] at hhint
  rcases hhint with rfl | rfl | rfl
  · exact Text.opens_append _ (by decide)
  · exact Text.opens_append _ (Text.opens_append _ (by decide))
  · exact Text.opens_append _ (by decide)

theorem directive_start : Text.opens "Half" midpointCheckpointDirective = true := by
  have hstart : Text.opens "Half"
      "Half the iteration budget for this task is spent. In your next reasoning, " =
        true := by
    decide
  exact Text.opens_append _ (Text.opens_append _ (Text.opens_append _
    (Text.opens_append _ (Text.opens_append _ hstart))))

/-- The hints of a round start otherwise than the halfway directive. -/
theorem hints_ordinary {hints : List String}
    (hhints : ∀ hint ∈ hints, hint ∈ hintTexts) :
    Message.Ordinary (.system ("\n".intercalate hints)) := by
  intro hmessage
  have htext : "\n".intercalate hints = midpointCheckpointDirective :=
    Message.system.inj hmessage
  have hstart : Text.opens "Half" ("\n".intercalate hints) = true :=
    htext ▸ directive_start
  cases hints with
  | nil => exact absurd hstart (by decide)
  | cons hint rest =>
      obtain ⟨after, hafter⟩ : ∃ after, "\n".intercalate (hint :: rest) =
          hint ++ after := by
        cases rest with
        | nil => exact ⟨"", by simp⟩
        | cons other rest =>
            exact ⟨_, by rw [String.intercalate_cons_cons, String.append_assoc]⟩
      have hhint : Text.opens "Hint: " (hint ++ after) = true :=
        Text.opens_append after (hint_start (hhints hint List.mem_cons_self))
      have hother : Text.opens "Half" (hint ++ after) = false :=
        Text.not_opens_of_apart hhint (by decide) (by decide)
      rw [hafter, hother] at hstart
      cases hstart

end Quiet

end Kitaebot.Agent
