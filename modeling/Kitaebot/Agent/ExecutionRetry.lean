import Kitaebot.Core.Run
import Kitaebot.Agent.Actor

/-!
# Execution retries

A task's default turn runs on the retry tier exactly when the default turn before it ran
on the default tier and hit the iteration cap.  The armed rows are what is left of the
turns so far: a task is armed exactly when its last default turn was such a one.
-/

namespace Kitaebot.Agent

variable {World : Type}

/-- What happens to the actor: it handles a message, or it is started again over the
stored rows, with its world in any state. -/
inductive ActorEvent (World : Type) where
  | message (envelope : InputEnvelope)
  | restart (world : World)

def ActorState.fresh (world : World) : ActorState World := ⟨world, .empty⟩

section Turns

variable (actor : Actor World)

def actorStep (state : ActorState World) : ActorEvent World → ActorState World
  | .message envelope => (handleMessage actor envelope state).state
  | .restart world => { state with world }

/-- The turn an event runs, if it runs one. -/
def ranAt (state : ActorState World) : ActorEvent World → Option RanTurn
  | .message envelope => (handleMessage actor envelope state).ran
  | .restart _ => none

/-- The turns of a run, in order. -/
def turnsOf : ActorState World → List (ActorEvent World) → List RanTurn
  | _, [] => []
  | state, event :: events =>
      (ranAt actor state event).toList ++ turnsOf (actorStep actor state event) events

end Turns

/-- The last turn of the task in the default role. -/
def lastDefault (task : TaskKey) (turns : List RanTurn) : Option RanTurn :=
  (turns.filter fun turn => turn.task = task ∧ turn.role = .default).getLast?

/-- The turn ran on the default tier and hit the iteration cap. -/
def RanTurn.ArmsRetry (turn : RanTurn) : Prop :=
  turn.provider = .baseProvider ∧ capped turn.outcome = true

/-- The last default turn of the task ran on the default tier and hit the cap. -/
def RetryDue (task : TaskKey) (turns : List RanTurn) : Prop :=
  ∃ last, lastDefault task turns = some last ∧ last.ArmsRetry

/-- Exactly the tasks whose retry is due are armed. -/
def Tracks (escalations : ExecutionEscalations) (turns : List RanTurn) : Prop :=
  ∀ task, task ∈ escalations.tasks ↔ RetryDue task turns

theorem tracks_empty : Tracks .empty [] := by
  intro task
  apply iff_of_false List.not_mem_nil
  rintro ⟨last, hlast, -⟩
  cases hlast

/-- A later turn of the task in the default role takes the place of the last one. -/
theorem retryDue_concat (task : TaskKey) (turns : List RanTurn) (turn : RanTurn) :
    RetryDue task (turns ++ [turn]) ↔
      if turn.task = task ∧ turn.role = .default then turn.ArmsRetry
      else RetryDue task turns := by
  rw [RetryDue, lastDefault, List.filter_append]
  split
  · next hsame =>
      rw [List.filter_singleton, decide_eq_true hsame]
      simp
  · next hother =>
      rw [List.filter_singleton, decide_eq_false hother]
      simp [RetryDue, lastDefault]

theorem retryDue_of_apart {task : TaskKey} {turns : List RanTurn} {turn : RanTurn}
    (hapart : ¬ (turn.task = task ∧ turn.role = .default)) :
    RetryDue task (turns ++ [turn]) ↔ RetryDue task turns := by
  rw [retryDue_concat, if_neg hapart]

/-- What a turn of a task in the default role leaves in the rows. -/
theorem mem_record {escalations : ExecutionEscalations} {task other : TaskKey} {cap : Bool} :
    other ∈ (escalations.record task (escalations.tier task) cap).2.tasks ↔
      if other = task then task ∉ escalations.tasks ∧ cap = true
      else other ∈ escalations.tasks := by
  by_cases harmed : task ∈ escalations.tasks
  · have htier : escalations.tier task = .retry := if_pos harmed
    rw [htier]
    by_cases hother : other = task
    · cases cap <;> simp [ExecutionEscalations.record, ExecutionEscalations.delete, hother,
        harmed]
    · cases cap <;> simp [ExecutionEscalations.record, ExecutionEscalations.delete, hother]
  · have htier : escalations.tier task = .default := if_neg harmed
    rw [htier]
    by_cases hother : other = task
    · cases cap <;> simp [ExecutionEscalations.record, ExecutionEscalations.delete,
        ExecutionEscalations.insert, hother, harmed]
    · cases cap <;> simp [ExecutionEscalations.record, ExecutionEscalations.delete,
        ExecutionEscalations.insert, hother]

section Runs

variable {actor : Actor World} (hretry : actor.hasRetryProvider = true)

/-- How a message is handled: it runs no turn and leaves the rows, a planner turn leaves
them too, and a default turn runs on the tier of its task and records its result. -/
inductive Handles (before : ExecutionEscalations) (after : ExecutionEscalations) :
    Option RanTurn → Prop where
  | refused (hsame : after = before) : Handles before after none
  | planned (turn : RanTurn) (hrole : turn.role = .planner)
      (hprovider : turn.provider = .plannerProvider) (hreported : turn.reported = turn.outcome)
      (hsame : after = before) : Handles before after (some turn)
  | executed (turn : RanTurn) (hrole : turn.role = .default)
      (hprovider : turn.provider =
        if turn.task ∈ before.tasks then .executionRetryProvider else .baseProvider)
      (hreported : turn.reported =
        if turn.task ∈ before.tasks then pushNote turn.outcome else turn.outcome)
      (hafter : after =
        (before.record turn.task (before.tier turn.task) (capped turn.outcome)).2) :
      Handles before after (some turn)

theorem pushNote_of_uncapped {result : Except Error TurnOutput}
    (hcap : capped result = false) : pushNote result = result := by
  unfold pushNote
  split
  · cases hcap
  · rfl

/-- Only the turn that exhausts the retry tier is reported with the note. -/
theorem recordEscalation_tier (escalations : ExecutionEscalations) (task : TaskKey)
    (result : Except Error TurnOutput) :
    recordEscalation escalations task (some (escalations.tier task)) result =
      ((escalations.record task (escalations.tier task) (capped result)).2,
        if task ∈ escalations.tasks then pushNote result else result) := by
  by_cases harmed : task ∈ escalations.tasks
  · have htier : escalations.tier task = .retry := if_pos harmed
    rw [htier, if_pos harmed]
    cases hcap : capped result with
    | true => simp only [recordEscalation, hcap, ExecutionEscalations.record]
    | false =>
        rw [pushNote_of_uncapped hcap]
        simp only [recordEscalation, hcap, ExecutionEscalations.record]
  · have htier : escalations.tier task = .default := if_neg harmed
    rw [htier, if_neg harmed]
    cases hcap : capped result with
    | true => simp only [recordEscalation, hcap, ExecutionEscalations.record]
    | false => simp only [recordEscalation, hcap, ExecutionEscalations.record]

/-- However a message is routed, its turn is the one of its provider. -/
theorem handles_route {envelope : InputEnvelope} {task : TaskKey} {tier : Option ProviderTier}
    {provider : RootProvider} {state : ActorState World}
    (hruns : ∀ original switched world, Handles state.escalations
      (runMessage actor envelope task tier provider original switched
        { state with world }).state.escalations
      (runMessage actor envelope task tier provider original switched
        { state with world }).ran) :
    Handles state.escalations
      (routeMessage actor envelope task tier provider state).state.escalations
      (routeMessage actor envelope task tier provider state).ran := by
  simp only [routeMessage]
  split
  · cases hswitch : actor.engine.switchSession _ state.world with
    | mk answer world =>
        cases answer with
        | error error => exact .refused rfl
        | ok _ => exact hruns _ _ _
  · exact hruns _ _ state.world

include hretry

/-- What one message does to the rows. -/
theorem handles_message (envelope : InputEnvelope) (state : ActorState World) :
    Handles state.escalations (handleMessage actor envelope state).state.escalations
      (handleMessage actor envelope state).ran := by
  simp only [handleMessage]
  cases hrole : envelope.role with
  | planner =>
      apply handles_route
      intro original switched world
      exact .planned _ hrole rfl rfl rfl
  | default =>
      simp only [escalationTier, hretry, if_true]
      cases actor.loadError state.world with
      | some error => exact .refused rfl
      | none =>
          have hprovider : providerFor actor .default
              (some (state.escalations.tier (.forSource envelope.source))) =
                .ok (if TaskKey.forSource envelope.source ∈ state.escalations.tasks
                  then .executionRetryProvider else .baseProvider) := by
            unfold ExecutionEscalations.tier
            split
            · simp only [providerFor, hretry, if_true]
            · rfl
          simp only [hprovider]
          apply handles_route
          intro original switched world
          simp only [runMessage, recordEscalation_tier]
          exact .executed _ hrole rfl rfl rfl

/-- What one event keeps. -/
theorem tracks_step {state : ActorState World} {turns : List RanTurn}
    (htracks : Tracks state.escalations turns) (event : ActorEvent World) :
    Tracks (actorStep actor state event).escalations
      (turns ++ (ranAt actor state event).toList) := by
  cases event with
  | restart world =>
      rw [ranAt, Option.toList_none, List.append_nil]
      exact htracks
  | message envelope =>
      have hhandles := handles_message hretry envelope state
      rw [actorStep, ranAt]
      generalize (handleMessage actor envelope state).state.escalations = after at hhandles
      generalize (handleMessage actor envelope state).ran = ran at hhandles
      cases hhandles with
      | refused hsame =>
          rw [hsame, Option.toList_none, List.append_nil]
          exact htracks
      | planned turn hrole hprovider hreported hsame =>
          intro task
          have hapart : ¬ (turn.task = task ∧ turn.role = .default) := by
            rw [hrole]
            simp
          rw [hsame, Option.toList_some, retryDue_of_apart hapart]
          exact htracks task
      | executed turn hrole hprovider hreported hafter =>
          intro task
          rw [hafter, mem_record, Option.toList_some, retryDue_concat]
          by_cases htask : turn.task = task
          · rw [if_pos htask.symm, if_pos ⟨htask, hrole⟩, RanTurn.ArmsRetry, hprovider]
            by_cases harmed : turn.task ∈ state.escalations.tasks
            · simp [harmed]
            · simp [harmed]
          · rw [if_neg (Ne.symm htask), if_neg fun hboth => htask hboth.1]
            exact htracks task

theorem tracks_run {state : ActorState World} {turns : List RanTurn}
    (htracks : Tracks state.escalations turns) (events : List (ActorEvent World)) :
    Tracks (Run.run (actorStep actor) state events).escalations
      (turns ++ turnsOf actor state events) := by
  induction events generalizing state turns with
  | nil =>
      rw [turnsOf, List.append_nil]
      exact htracks
  | cons event events ih =>
      rw [Run.run_cons, turnsOf, ← List.append_assoc]
      exact ih (tracks_step hretry htracks event)

/-- After any run, a turn of the default role runs on the retry tier exactly when the
default turn of the task before it ran on the default tier and hit the cap; the note is
added exactly when a retry turn hits the cap. -/
theorem retry_follows_cap (world : World) (events : List (ActorEvent World))
    (event : ActorEvent World) (turn : RanTurn)
    (hran : ranAt actor (Run.run (actorStep actor) (.fresh world) events) event = some turn) :
    (turn.role = .default →
      (turn.provider = .executionRetryProvider ↔
        ∃ last, lastDefault turn.task (turnsOf actor (.fresh world) events) = some last ∧
          last.provider = .baseProvider ∧ capped last.outcome = true)) ∧
    (turn.role = .planner → turn.provider = .plannerProvider) ∧
    turn.reported =
      if turn.provider = .executionRetryProvider ∧ capped turn.outcome = true
      then pushNote turn.outcome else turn.outcome := by
  have htracks : Tracks (Run.run (actorStep actor) (.fresh world) events).escalations
      ([] ++ turnsOf actor (.fresh world) events) :=
    tracks_run hretry tracks_empty events
  rw [List.nil_append] at htracks
  generalize Run.run (actorStep actor) (.fresh world) events = state at hran htracks
  cases event with
  | restart world => cases hran
  | message envelope =>
      have hhandles := handles_message hretry envelope state
      rw [ranAt] at hran
      rw [hran] at hhandles
      cases hhandles with
      | planned _ hrole hprovider hreported hsame =>
          rw [hrole, hprovider, hreported]
          exact ⟨nofun, fun _ => rfl, rfl⟩
      | executed _ hrole hprovider hreported hafter =>
          rw [hrole, hprovider, hreported]
          refine ⟨fun _ => ?_, nofun, ?_⟩
          · change _ ↔ RetryDue turn.task _
            rw [← htracks turn.task]
            split
            · next harmed => exact iff_of_true rfl harmed
            · next harmed => exact iff_of_false nofun harmed
          · split
            · next harmed =>
                cases hcap : capped turn.outcome with
                | true => exact (if_pos ⟨rfl, rfl⟩).symm
                | false =>
                    rw [pushNote_of_uncapped hcap, ite_self]
            · exact (if_neg fun hboth => nomatch hboth.1).symm

end Runs

/-- Turns that hit the cap as scripted, in one session. -/
def scriptedActor : Actor (List Bool) where
  hasRetryProvider := true
  engine := ⟨fun _ => "general", fun _ world => (.ok (), world), fun world => (.ok (), world)⟩
  turn _ _ script :=
    if script.headD false then (.error (.maxIterationsReached "state"), script.tail)
    else (.ok (.text "done"), script.tail)
  loadError _ := none

def issueMessage : InputEnvelope :=
  ⟨.gitHubIssue "owner/repo#146", "go", none, .default⟩

/-- The turn of the issue after one that hit the cap. -/
def retriedTurn : RanTurn where
  task := ⟨"issue:owner/repo#146"⟩
  role := .default
  provider := .executionRetryProvider
  outcome := .error (.maxIterationsReached "state")
  reported := .error (.maxIterationsReached ("state" ++ exhaustedNote))

theorem retry_follows_cap_issue :
    scriptedActor.hasRetryProvider = true ∧
    ranAt scriptedActor (Run.run (actorStep scriptedActor) (.fresh [true, true])
      [.message issueMessage]) (.message issueMessage) = some retriedTurn ∧
    (retriedTurn.role = .default →
      (retriedTurn.provider = .executionRetryProvider ↔
        ∃ last, lastDefault retriedTurn.task
            (turnsOf scriptedActor (.fresh [true, true]) [.message issueMessage]) = some last ∧
          last.provider = .baseProvider ∧ capped last.outcome = true)) ∧
    (retriedTurn.role = .planner → retriedTurn.provider = .plannerProvider) ∧
    retriedTurn.reported =
      if retriedTurn.provider = .executionRetryProvider ∧ capped retriedTurn.outcome = true
      then pushNote retriedTurn.outcome else retriedTurn.outcome :=
  ⟨rfl, rfl, retry_follows_cap rfl [true, true] [.message issueMessage]
    (.message issueMessage) retriedTurn rfl⟩

end Kitaebot.Agent
