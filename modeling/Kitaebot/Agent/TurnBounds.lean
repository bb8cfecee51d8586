import Kitaebot.Agent.TurnRounds

/-!
# The bounds of a turn

Requests, halfway directives and held replies are counted over a whole turn, and
with its rounds they bound every turn: any endpoint, any tools, any engine,
cancelled or not.
-/

namespace Kitaebot.Agent

/-- A kind of deed that no round is. -/
structure Watch where
  sees : TurnEvent → Bool
  isDeed : ∀ event, sees event = true → event.isDeed = true
  refused : ∀ calls, sees (.refused calls) = false
  executed : ∀ calls results, sees (.executed calls results) = false

namespace Watch

def chats : Watch where
  sees := TurnEvent.isChat
  isDeed := by
    intro event hevent
    cases event with
    | chat messages tools attempts => rfl
    | _ => cases hevent
  refused := fun _ => rfl
  executed := fun _ _ => rfl

def checkpoints : Watch where
  sees := TurnEvent.isCheckpoint
  isDeed := by
    intro event hevent
    cases event with
    | pushed message => exact hevent
    | _ => rfl
  refused := fun _ => rfl
  executed := fun _ _ => rfl

def held : Watch where
  sees := TurnEvent.isHeld
  isDeed := by
    intro event hevent
    cases event with
    | held iteration => rfl
    | _ => cases hevent
  refused := fun _ => rfl
  executed := fun _ _ => rfl

end Watch

section Tally

variable {World : Type} (around : Surroundings World)
  (parse : String → Option Json.Value) (cfg : TurnConfig) (watch : Watch)

/-- The hold flag and the events that are watched. -/
def tally (state : TurnState World) : Bool × List TurnEvent :=
  (state.stats.nudged, state.trace.filter watch.sees)

/-- The effect does nothing that is watched. -/
abbrev Unseen {Value : Type} (effect : TurnM World Value) : Prop :=
  Effect.Leaves (tally watch) effect

theorem filter_deeds (trace : List TurnEvent) :
    (deeds trace).filter watch.sees = trace.filter watch.sees := by
  rw [deeds, List.filter_filter]
  apply List.filter_congr
  intro event _
  cases hsees : watch.sees event with
  | true => rw [watch.isDeed event hsees, Bool.and_true]
  | false => rfl

variable {watch} in
theorem unseen_of_quiet {Value : Type} {effect : TurnM World Value}
    (heffect : Quiet effect) : Unseen watch effect := by
  apply heffect.map
  intro state other hsame
  rw [ledger, ledger, Prod.mk.injEq, Prod.mk.injEq] at hsame
  obtain ⟨_, hnudged, hdeeds⟩ := hsame
  rw [tally, tally, hnudged, ← filter_deeds, hdeeds, filter_deeds]

variable {watch} in
theorem unseen_emit {event : TurnEvent} (hevent : watch.sees event = false) :
    Unseen watch (emit event : TurnM World Unit) := by
  apply Effect.Leaves.modify
  intro state
  rw [tally, tally, List.filter_append, List.filter_singleton, hevent]
  exact congrArg (Prod.mk _) (List.append_nil _)

theorem unseen_push {message : Message} (hmessage : Message.Ordinary message) :
    Unseen watch (push around message) :=
  unseen_of_quiet (quiet_push around hmessage)

variable {watch} in
theorem unseen_drawReply
    (hchat : ∀ messages tools attempts, watch.sees (.chat messages tools attempts) = false)
    (messages : List Message) (tools : List ToolDefinition) :
    Unseen watch (drawReply around messages tools) := by
  have hmarks (trace : List TurnEvent) :
      (marks trace).filter watch.sees = trace.filter watch.sees := by
    rw [marks, List.filter_filter, ← filter_deeds]
    apply List.filter_congr
    intro event _
    cases event with
    | chat messages tools attempts => rw [hchat]; rfl
    | _ => exact Bool.and_true _
  apply (aside_drawReply around messages tools).map
  intro state other hsame
  obtain ⟨hnudged, hsame⟩ := Prod.mk.inj hsame
  rw [tally, tally, hnudged, ← hmarks, hsame, hmarks]

/-! ### A round of calls -/

theorem unseen_refuse (vars : LoopVars) (calls : List ToolCall) :
    Unseen watch (refuse around vars calls) := by
  apply Effect.Leaves.bind (unseen_emit (watch.refused calls))
  intro _
  apply Effect.Leaves.bind
  · exact .forEach (fun call => unseen_push around watch Message.noConfusion) calls
  · intro _
    split
    · exact .fail _
    · exact .pure _

theorem unseen_execute (calls : List ToolCall) :
    Unseen watch (execute around calls) := by
  intro state result final hrun
  rw [execute] at hrun
  split at hrun
  · cases hrun
    rfl
  · next round world hquestion =>
      cases hrun
      rw [tally, tally, List.filter_append, List.filter_singleton, watch.executed]
      exact congrArg (Prod.mk _) (List.append_nil _)

theorem unseen_settleRound (vars : LoopVars) (halt : Option TurnOutput)
    (blocked : List (String × String)) :
    Unseen watch (settleRound around vars halt blocked) := by
  have hstop : Message.Ordinary (.system policyStopDirective) :=
    .system (by decide)
  rw [settleRound.eq_def]
  cases halt with
  | some halt => exact .pure _
  | none =>
      dsimp only
      split_ifs
      · exact .pure _
      · exact .pure _
      · exact .bind (unseen_push around watch hstop) fun _ => .pure _

/-- Whatever ran before, the hints of a round are hints. -/
theorem unseen_runTools (vars : LoopVars) (calls : List ToolCall) :
    Unseen watch (runTools around parse vars calls) := by
  rw [runTools]
  apply Effect.Leaves.bind
  · exact .modify fun _ => rfl
  intro _
  apply Effect.Leaves.bind (unseen_execute around watch calls)
  intro results
  apply Effect.Leaves.bind_run
    (unseen_of_quiet (quiet_recordToolResults around parse _ _))
  intro recording state recorded hrecorded
  have hrecording := recordToolResults_eq around parse
    ⟨vars.toolStrikes, vars.hints, none, []⟩ (calls.zip results) state
  rw [hrecorded] at hrecording
  have hhints : ∀ hint ∈ recording.roundHints, hint ∈ hintTexts := by
    rw [Except.ok.inj hrecording]
    exact roundHints_foldl parse _ (List.forall_mem_nil _)
  apply Effect.Leaves.bind
  · rw [pushHints]
    split
    · exact .pure _
    · exact unseen_push around watch (hints_ordinary hhints)
  · exact fun _ => unseen_settleRound around watch _ _ _

theorem unseen_takeCalls (vars : LoopVars) (content : String) (calls : List ToolCall) :
    Unseen watch (takeCalls around parse vars content calls) := by
  apply Effect.Leaves.bind (unseen_push around watch Message.noConfusion)
  intro _
  rw [judgeCalls]
  split
  · exact unseen_refuse around watch _ _
  · exact unseen_runTools around parse watch _ _

/-! ### The parts of an iteration -/

variable {watch}

theorem unseen_checkpoint
    (hcheckpoint : watch.sees (.pushed (.system midpointCheckpointDirective)) = false)
    (iteration : ℕ) : Unseen watch (checkpoint around cfg iteration) := by
  rw [checkpoint]
  split
  · exact .bind (.modify fun _ => rfl) fun _ =>
      .bind (unseen_of_quiet (quiet_ask _)) fun _ => unseen_emit hcheckpoint
  · exact .pure _

theorem unseen_prepare
    (hcheckpoint : watch.sees (.pushed (.system midpointCheckpointDirective)) = false)
    (iteration : ℕ) : Unseen watch (prepare around cfg iteration) :=
  .bind (unseen_of_quiet (quiet_cancelPoint around)) fun _ =>
    .bind (.modify fun _ => rfl) fun _ => .bind (unseen_of_quiet (quiet_ask _)) fun _ =>
      .bind (unseen_checkpoint around cfg hcheckpoint iteration) fun _ =>
        unseen_of_quiet (quiet_ask _)

/-- What is watched, hold flag apart. -/
def seen (watch : Watch) (state : TurnState World) : List TurnEvent :=
  state.trace.filter watch.sees

theorem Unseen.seen {Value : Type} {effect : TurnM World Value}
    (heffect : Unseen watch effect) : Effect.Leaves (seen watch) effect :=
  heffect.map fun _ _ hsame => congrArg Prod.snd hsame

theorem seen_takeText
    (hheld : ∀ iteration, watch.sees (.held iteration) = false)
    (iteration : ℕ) (vars : LoopVars) (content : String) :
    Effect.Leaves (seen watch) (takeText around cfg iteration vars content) := by
  have hconfirm : Message.Ordinary (.system confirmReplyDirective) :=
    .system (by decide)
  apply Effect.Leaves.bind (unseen_push around watch Message.noConfusion).seen
  intro _
  apply Effect.Leaves.bind (.gets _)
  intro nudged
  rw [holdOrReturn]
  split
  · exact .bind (.modify fun _ => rfl) fun _ => .bind (unseen_emit (hheld _)).seen fun _ =>
      .bind (unseen_push around watch hconfirm).seen fun _ => .pure _
  · exact .pure _

theorem seen_takeReply
    (hheld : ∀ iteration, watch.sees (.held iteration) = false)
    (iteration : ℕ) (vars : LoopVars) (reply : Response) :
    Effect.Leaves (seen watch) (takeReply around parse cfg iteration vars reply) := by
  cases reply with
  | text content => exact seen_takeText around cfg hheld iteration vars content
  | toolCalls content calls =>
      exact (unseen_takeCalls around parse watch vars content calls).seen

/-- How many watched events there are. -/
def count (watch : Watch) (state : TurnState World) : ℕ :=
  state.trace.countP watch.sees

theorem count_of_seen {Value : Type} {effect : TurnM World Value}
    (heffect : Effect.Leaves (seen watch) effect) :
    Effect.Leaves (count watch) effect := by
  apply heffect.map
  intro state other hsame
  rw [count, count, List.countP_eq_length_filter, List.countP_eq_length_filter]
  exact congrArg List.length hsame

/-- An iteration costs what its preparation and its request cost. -/
theorem costs_iterate
    (hheld : ∀ iteration, watch.sees (.held iteration) = false)
    {iteration prepared drawn : ℕ}
    (hprepare : Effect.Costs (count watch) prepared (prepare around cfg iteration))
    (hdraw : ∀ messages, Effect.Costs (count watch) drawn
      (drawReply around messages cfg.tools)) (vars : LoopVars) :
    Effect.Costs (count watch) (prepared + drawn)
      (iterate around parse cfg iteration vars) :=
  .bind hprepare fun messages => .bind (hdraw messages) fun reply =>
    .of_leaves (count_of_seen
      (seen_takeReply around parse cfg hheld iteration vars reply))

/-- A loop costs what its iterations cost together. -/
theorem costs_loop (each : ℕ → ℕ) (most : ℕ → ℕ → ℕ)
    (hmost : ∀ left iteration,
      each iteration + most left (iteration + 1) ≤ most (left + 1) iteration)
    (heach : ∀ iteration vars, Effect.Costs (count watch) (each iteration)
      (iterate around parse cfg iteration vars))
    (left iteration : ℕ) (vars : LoopVars) :
    Effect.Costs (count watch) (most left iteration)
      (loop around parse cfg left iteration vars) := by
  induction left generalizing iteration vars with
  | zero => exact (Effect.Costs.of_leaves (.pure none)).mono (Nat.zero_le _)
  | succ left ih =>
      apply Effect.Costs.mono (hmost left iteration)
      apply Effect.Costs.bind (heach iteration vars)
      intro flow
      cases flow with
      | next after => exact ih (iteration + 1) after
      | done output => exact (Effect.Costs.of_leaves (.pure _)).mono (Nat.zero_le _)

/-! ### The cap -/

/-- At the cap one completion is asked for, whatever is made of it. -/
theorem run_spent {state final : TurnState World} {result : Except Error TurnOutput}
    (hrun : spent around cfg state = (result, final)) :
    ∃ directive answer, Message.Ordinary (.system directive) ∧
      squeeze around cfg directive state = (answer, final) := by
  rw [spent.eq_def] at hrun
  cases hbudget : cfg.budget with
  | fail =>
      rw [hbudget] at hrun
      dsimp only at hrun
      have hordinary : Message.Ordinary (.system stateReportDirective) :=
        .system (by decide)
      rw [stateReport.eq_def] at hrun
      split at hrun
      all_goals
        next hsqueeze =>
          cases hrun
          exact ⟨_, _, hordinary, hsqueeze⟩
  | finalAnswer =>
      rw [hbudget] at hrun
      have hordinary : Message.Ordinary (.system finalAnswerDirective) :=
        .system (by decide)
      rcases Effect.run_bind hrun with ⟨content, squeezed, hsqueeze, hrun⟩ |
        ⟨error, hsqueeze, _⟩
      · rw [(Effect.run_pure hrun).2]
        exact ⟨_, _, hordinary, hsqueeze⟩
      · exact ⟨_, _, hordinary, hsqueeze⟩

theorem unseen_squeeze
    (hchat : ∀ messages tools attempts, watch.sees (.chat messages tools attempts) = false)
    {directive : String} (hordinary : Message.Ordinary (.system directive)) :
    Unseen watch (squeeze around cfg directive) :=
  .bind (.modify fun _ => rfl) fun _ =>
    .bind (unseen_push around watch hordinary) fun _ =>
      .bind (unseen_of_quiet (quiet_ask _)) fun _ =>
        .bind (unseen_drawReply around hchat _ _) fun _ =>
          .bind (unseen_push around watch Message.noConfusion) fun _ => .pure _

/-- A turn costs what its loop and its cap cost. -/
theorem costs_turnLoop {looped capped : ℕ}
    (hloop : Effect.Costs (count watch) looped
      (loop around parse cfg cfg.maxIterations 0 .new))
    (hspent : Effect.Costs (count watch) capped (spent around cfg)) :
    Effect.Costs (count watch) (looped + capped) (turnLoop around parse cfg) := by
  have hcancel : Effect.Costs (count watch) 0 (cancelPoint around) :=
    .of_leaves (count_of_seen (unseen_of_quiet (quiet_cancelPoint around)).seen)
  have hpush : Effect.Costs (count watch) 0 (push around (.user cfg.userMessage)) :=
    .of_leaves (count_of_seen (unseen_push around watch Message.noConfusion).seen)
  have hcosts : Effect.Costs (count watch) (0 + (0 + (looped + capped)))
      (turnLoop around parse cfg) := by
    apply Effect.Costs.bind hcancel
    intro _
    apply Effect.Costs.bind hpush
    intro _
    apply Effect.Costs.bind hloop
    intro output
    cases output with
    | some output => exact (Effect.Costs.of_leaves (.pure _)).mono (Nat.zero_le _)
    | none => exact hspent
  simpa only [Nat.zero_add] using hcosts

end Tally

/-! ### Requests and checkpoints -/

section Counts

variable {World : Type} (around : Surroundings World)
  (parse : String → Option Json.Value) (cfg : TurnConfig)

theorem costs_drawReply (messages : List Message) (tools : List ToolDefinition) :
    Effect.Costs (count .chats) 1 (drawReply around messages tools) := by
  apply Effect.Costs.mono (Nat.le_of_eq (Nat.add_zero 1))
  apply Effect.Costs.bind
  · intro state result final hrun
    rw [chat] at hrun
    generalize retry around messages tools maxRetries state.world = asked at hrun
    obtain ⟨ended, attempts, world⟩ := asked
    have hcount : (state.trace ++ [TurnEvent.chat messages tools attempts]).countP
        TurnEvent.isChat = state.trace.countP TurnEvent.isChat + 1 := by
      rw [List.countP_append]
      rfl
    cases ended <;> cases hrun <;> exact Nat.le_of_eq hcount
  · intro drawn state result final hrun
    cases drawn with
    | error failure =>
        cases hrun
        exact Nat.le_add_right _ _
    | ok outcome =>
        obtain ⟨response, ⟨promptTokens, cached, provider, completion, cost⟩, failed⟩ :=
          outcome
        cases promptTokens <;> cases hrun <;> exact Nat.le_add_right _ _

/-- Every iteration asks once, and the cap once more. -/
theorem costs_requests :
    Effect.Costs (count .chats) (cfg.maxIterations + 1) (turnLoop around parse cfg) := by
  have hprepare (iteration : ℕ) :
      Effect.Costs (count .chats) 0 (prepare around cfg iteration) :=
    .of_leaves (count_of_seen (unseen_prepare around cfg rfl iteration).seen)
  have hpush {message : Message} (hmessage : Message.Ordinary message) :
      Effect.Costs (count .chats) 0 (push around message) :=
    .of_leaves (count_of_seen (unseen_push around .chats hmessage).seen)
  have hassemble :
      Effect.Costs (count .chats) 0 (ask (around.assemble cfg.systemPrompt)) :=
    .of_leaves (count_of_seen (unseen_of_quiet (quiet_ask _)).seen)
  apply costs_turnLoop
  · apply costs_loop around parse cfg (fun _ => 1) (fun left _ => left)
    · exact fun left _ => Nat.le_of_eq (Nat.add_comm 1 left)
    · intro iteration vars
      exact costs_iterate around parse cfg (fun _ => rfl) (hprepare iteration)
        (fun messages => costs_drawReply around messages cfg.tools) vars
  · intro state result final hrun
    obtain ⟨directive, answer, hordinary, hsqueeze⟩ := run_spent around cfg hrun
    have hcosts : Effect.Costs (count .chats) (0 + (0 + (0 + (1 + (0 + 0)))))
        (squeeze around cfg directive) :=
      .bind (.of_leaves (.modify fun _ => rfl)) fun _ => .bind (hpush hordinary) fun _ =>
        .bind hassemble fun _ => .bind (costs_drawReply around _ _) fun _ =>
          .bind (hpush Message.noConfusion) fun _ => .of_leaves (.pure _)
    exact hcosts state answer final hsqueeze

/-- Whether the halfway directive belongs to an iteration. -/
def halfway (cfg : TurnConfig) (iteration : ℕ) : ℕ :=
  if iteration = cfg.maxIterations / 2 ∧ 0 < iteration then 1 else 0

theorem costs_prepare (iteration : ℕ) :
    Effect.Costs (count .checkpoints) (halfway cfg iteration)
      (prepare around cfg iteration) := by
  have hask {Value : Type} (question : World → Except String Value × World) :
      Effect.Costs (count .checkpoints) 0 (ask question) :=
    .of_leaves (count_of_seen (unseen_of_quiet (quiet_ask _)).seen)
  have hcancel : Effect.Costs (count .checkpoints) 0 (cancelPoint around) :=
    .of_leaves (count_of_seen (unseen_of_quiet (quiet_cancelPoint around)).seen)
  have hemit : Effect.Costs (count .checkpoints) 1
      (emit (.pushed (.system midpointCheckpointDirective)) : TurnM World Unit) := by
    intro state result final hrun
    rw [(Effect.run_modify hrun).2, count, count, List.countP_append]
    exact Nat.add_le_add_left List.countP_le_length _
  have hcheckpoint : Effect.Costs (count .checkpoints) (halfway cfg iteration)
      (checkpoint around cfg iteration) := by
    rw [checkpoint, halfway]
    split
    · have hpush : Effect.Costs (count .checkpoints) (0 + 1)
          (push around (.system midpointCheckpointDirective)) :=
        .bind (hask _) fun _ => hemit
      rw [← Nat.zero_add 1, ← Nat.zero_add (0 + 1)]
      exact .bind (.of_leaves (.modify fun _ => rfl)) fun _ => hpush
    · exact .of_leaves (.pure ())
  have hcosts : Effect.Costs (count .checkpoints) (0 + (0 + (0 + (halfway cfg iteration + 0))))
      (prepare around cfg iteration) :=
    .bind hcancel fun _ => .bind (.of_leaves (.modify fun _ => rfl)) fun _ =>
      .bind (hask _) fun _ => .bind hcheckpoint fun _ => hask _
  simpa only [Nat.zero_add, Nat.add_zero] using hcosts

/-- One iteration at most is halfway. -/
theorem costs_checkpoints :
    Effect.Costs (count .checkpoints) 1 (turnLoop around parse cfg) := by
  have hdraw (messages : List Message) : Effect.Costs (count .checkpoints) 0
      (drawReply around messages cfg.tools) :=
    .of_leaves (count_of_seen (unseen_drawReply around (fun _ _ _ => rfl) _ _).seen)
  have hloop : Effect.Costs (count .checkpoints) 1
      (loop around parse cfg cfg.maxIterations 0 .new) := by
    have hcosts := costs_loop around parse cfg (halfway cfg)
      (fun _ iteration => if iteration ≤ cfg.maxIterations / 2 then 1 else 0)
      (by
        intro left iteration
        rw [halfway]
        split_ifs <;> omega)
      (fun iteration vars => costs_iterate around parse cfg (fun _ => rfl)
        (costs_prepare around cfg iteration) hdraw vars) cfg.maxIterations 0 .new
    exact hcosts
  have hspent : Effect.Costs (count .checkpoints) 0 (spent around cfg) := by
    intro state result final hrun
    obtain ⟨directive, answer, hordinary, hsqueeze⟩ := run_spent around cfg hrun
    have hunseen : Unseen .checkpoints (squeeze around cfg directive) :=
      unseen_squeeze around cfg (fun _ _ _ => rfl) hordinary
    exact Nat.le_of_eq (count_of_seen hunseen.seen state answer final hsqueeze)
  exact costs_turnLoop around parse cfg hloop hspent

/-! ### Held replies -/

/-- One reply was held if the flag says so, and not in the last iteration. -/
structure Holding (cfg : TurnConfig) (held : Bool × List TurnEvent) : Prop where
  once : held.2.length = held.1.toNat
  early : ∀ iteration, .held iteration ∈ held.2 →
    cfg.reply = .confirm ∧ iteration + 1 < cfg.maxIterations

abbrev Holds {Value : Type} (effect : TurnM World Value) : Prop :=
  Effect.Keeps (fun _ => False) (fun state => Holding cfg (tally .held state)) effect

theorem holds_of_unseen {Value : Type} {effect : TurnM World Value}
    (heffect : Unseen .held effect) : Holds cfg effect := by
  have hreads (state other : TurnState World) (hsame : tally .held other = tally .held state)
      (hstate : Holding cfg (tally .held state)) : Holding cfg (tally .held other) := by
    rw [hsame]
    exact hstate
  exact .of_leaves hreads heffect

theorem holds_takeText (iteration : ℕ) (vars : LoopVars) (content : String) :
    Holds cfg (takeText around cfg iteration vars content) := by
  apply Effect.Keeps.bind
  · exact holds_of_unseen cfg (unseen_push around .held Message.noConfusion)
  intro _ state result final hrun hstate _
  rcases Effect.run_bind hrun with ⟨nudged, between, hnudged, hrun⟩ | ⟨error, hnone, _⟩
  swap
  · cases (Effect.run_gets hnone).1
  obtain ⟨hflag, hbetween⟩ := Effect.run_gets hnudged
  cases hflag
  rw [hbetween, holdOrReturn] at hrun
  split at hrun
  · next hhold =>
      have hrest : Unseen .held (push around (.system confirmReplyDirective) >>=
          fun _ => pure (Flow.next vars)) :=
        .bind (unseen_push around .held (.system (by decide))) fun _ => .pure _
      rcases Effect.run_bind hrun with ⟨_, flagged, hflagged, hrun⟩ | ⟨error, hnone, _⟩
      swap
      · cases hnone
      rcases Effect.run_bind hrun with ⟨_, emitted, hemitted, hrun⟩ | ⟨error, hnone, _⟩
      swap
      · cases hnone
      have htally : tally .held emitted =
          (true, state.trace.filter TurnEvent.isHeld ++ [.held iteration]) := by
        rw [(Effect.run_modify hemitted).2, (Effect.run_modify hflagged).2, tally,
          List.filter_append]
        rfl
      have honce : (state.trace.filter TurnEvent.isHeld).length =
          state.stats.nudged.toNat := hstate.once
      rw [hhold.2.1] at honce
      rw [hrest _ _ _ hrun, htally]
      constructor
      · rw [List.length_append, honce]
        rfl
      · intro other hother
        rcases List.mem_append.1 hother with hold | hnew
        · exact hstate.early other hold
        · cases List.mem_singleton.1 hnew
          exact ⟨hhold.1, hhold.2.2⟩
  · rw [(Effect.run_pure hrun).2]
    exact hstate

theorem holds_iterate (iteration : ℕ) (vars : LoopVars) :
    Holds cfg (iterate around parse cfg iteration vars) := by
  apply Effect.Keeps.bind
  · exact holds_of_unseen cfg (unseen_prepare around cfg rfl iteration)
  intro messages
  apply Effect.Keeps.bind
  · exact holds_of_unseen cfg (unseen_drawReply around (fun _ _ _ => rfl) _ _)
  intro reply
  cases reply with
  | text content => exact holds_takeText around cfg iteration vars content
  | toolCalls content calls =>
      exact holds_of_unseen cfg (unseen_takeCalls around parse .held vars content calls)

theorem holds_loop (left iteration : ℕ) (vars : LoopVars) :
    Holds cfg (loop around parse cfg left iteration vars) := by
  induction left generalizing iteration vars with
  | zero => exact holds_of_unseen cfg (.pure none)
  | succ left ih =>
      apply Effect.Keeps.bind (holds_iterate around parse cfg iteration vars)
      intro flow
      cases flow with
      | done output => exact holds_of_unseen cfg (.pure _)
      | next after => exact ih (iteration + 1) after

theorem holds_turnLoop : Holds cfg (turnLoop around parse cfg) := by
  apply Effect.Keeps.bind
  · exact holds_of_unseen cfg (unseen_of_quiet (quiet_cancelPoint around))
  intro _
  apply Effect.Keeps.bind
  · exact holds_of_unseen cfg (unseen_push around .held Message.noConfusion)
  intro _
  apply Effect.Keeps.bind (holds_loop around parse cfg cfg.maxIterations 0 .new)
  intro output
  cases output with
  | some output => exact holds_of_unseen cfg (.pure _)
  | none =>
      intro state result final hrun hstate _
      obtain ⟨directive, answer, hordinary, hsqueeze⟩ := run_spent around cfg hrun
      have hunseen : Unseen .held (squeeze around cfg directive) :=
        unseen_squeeze around cfg (fun _ _ _ => rfl) hordinary
      rw [hunseen state answer final hsqueeze]
      exact hstate

/-! ### Every turn -/

/-- What bounds a turn, read off its record. -/
structure HaltingBounds (turn : TurnRecord World) : Prop where
  requests : turn.trace.countP TurnEvent.isChat ≤ cfg.maxIterations + 1
  /-- A set of calls runs less often in a row than the limit. -/
  repeats : ∀ set segment, segment <:+: rounds turn.trace →
    (∀ round ∈ segment, fingerprint parse round.calls = set) →
      segment.countP (fun round => !round.isRefused) < repeatLimit
  /-- A turn without progress ends after its refused rounds. -/
  noProgress : turn.result = .error .noProgress →
    repeatStrikeLimit ≤ refusedLast (rounds turn.trace)
  /-- So many refused rounds in a row are the last rounds of the turn, which is
  abandoned unless the engine failed to record them. -/
  refusals : ∀ before, before <+: rounds turn.trace →
    repeatStrikeLimit ≤ refusedLast before → before = rounds turn.trace ∧
      (turn.result = .error .noProgress ∨ IsEngine turn.result)
  /-- A policy halt comes with the first round that reaches a policy limit, where no
  tool reached its own. -/
  policyHalt : ∀ reasons, turn.result = .ok (.policyHalt reasons) →
    ∃ before calls results,
      rounds turn.trace = before ++ [.executed calls results] ∧
        ¬ PolicyLimit before ∧ PolicyLimit (rounds turn.trace) ∧
          ¬ ToolLimit parse before (.executed calls results) ∧
            reasons = (blockedCalls results).map Prod.fst
  /-- The first round that reaches a policy limit is the last; it halts the turn,
  for the tool where one reached its limit. -/
  policy : ∀ before last, before ++ [last] <+: rounds turn.trace →
    ¬ PolicyLimit before → PolicyLimit (before ++ [last]) →
      before ++ [last] = rounds turn.trace ∧
        (IsEngine turn.result ∨
          (ToolLimit parse before last ∧ ∃ tool args errorClass count,
            turn.result = .ok (.toolHalt tool args errorClass count)) ∨
          ¬ ToolLimit parse before last ∧
            ∃ reasons, turn.result = .ok (.policyHalt reasons))
  checkpoint : turn.trace.countP TurnEvent.isCheckpoint ≤ 1
  held : turn.trace.countP TurnEvent.isHeld ≤ 1
  heldEarly : ∀ iteration, .held iteration ∈ turn.trace →
    cfg.reply = .confirm ∧ iteration + 1 < cfg.maxIterations

/-- Every turn is bounded, from any world. -/
theorem haltingBounds_runTurnMetered (world : World) :
    HaltingBounds parse cfg (runTurnMetered around parse cfg world) := by
  have hrequests := costs_requests around parse cfg ⟨world, .new, []⟩
  have hcheckpoints := costs_checkpoints around parse cfg ⟨world, .new, []⟩
  have hheld := holds_turnLoop around parse cfg ⟨world, .new, []⟩
  rw [runTurnMetered]
  generalize hrun : turnLoop around parse cfg ⟨world, .new, []⟩ = ended
    at hrequests hcheckpoints hheld
  obtain ⟨result, final⟩ := ended
  have hverdict := turnLoop_verdict hrun
  have hstart : Holding cfg (tally .held (⟨world, .new, []⟩ : TurnState World)) :=
    ⟨rfl, fun _ hheld => absurd hheld List.not_mem_nil⟩
  have hholding := hheld result final rfl hstart fun _ _ hnone => hnone
  refine ⟨?_, ?_, hverdict.noProgress, hverdict.refusals, hverdict.policyHalt,
    hverdict.policy, ?_, ?_, ?_⟩
  · exact (hrequests result final rfl).trans (Nat.le_of_eq (Nat.zero_add _))
  · rintro set segment ⟨before, after, hsegment⟩ hsame
    have hjudged := hverdict.judged
    rw [← hsegment, judged_append, judged_append] at hjudged
    exact executed_lt_limit parse _ hsame hjudged.1.2
  · exact (hcheckpoints result final rfl).trans (Nat.le_of_eq (Nat.zero_add _))
  · have honce := hholding.once
    rw [tally] at honce
    rw [List.countP_eq_length_filter]
    exact Nat.le_trans (Nat.le_of_eq honce) (Bool.toNat_le _)
  · exact fun iteration hmem => hholding.early iteration (List.mem_filter.2 ⟨hmem, rfl⟩)

end Counts

end Kitaebot.Agent
