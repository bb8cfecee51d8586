import Kitaebot.Agent.Halting

/-!
# The rounds of a turn

What one iteration of the turn loop does to its rounds, and from it how every
turn ends: any endpoint, any tools, any engine, cancelled or not.
-/

namespace Kitaebot.Agent

section Marks

variable {World : Type} (around : Surroundings World)
  (parse : String → Option Json.Value) (cfg : TurnConfig)

/-- Rounds, held replies and checkpoints. -/
def marks (trace : List TurnEvent) : List TurnEvent :=
  (deeds trace).filter fun event => !event.isChat

theorem marks_append (first second : List TurnEvent) :
    marks (first ++ second) = marks first ++ marks second := by
  rw [marks, deeds_append, List.filter_append]
  rfl

def aside (state : TurnState World) : Bool × List TurnEvent :=
  (state.stats.nudged, marks state.trace)

/-- The effect holds nothing, runs no round and passes no checkpoint. -/
abbrev Aside {Value : Type} (effect : TurnM World Value) : Prop :=
  Effect.Leaves aside effect

theorem aside_of_quiet {Value : Type} {effect : TurnM World Value}
    (heffect : Quiet effect) : Aside effect := by
  apply heffect.map
  intro state other hsame
  rw [ledger, ledger, Prod.mk.injEq, Prod.mk.injEq] at hsame
  obtain ⟨_, hnudged, hdeeds⟩ := hsame
  rw [aside, aside, hnudged, marks, hdeeds]
  rfl

/-- A request leaves only itself and its usage behind. -/
theorem aside_drawReply (messages : List Message) (tools : List ToolDefinition) :
    Aside (drawReply around messages tools) := by
  apply Effect.Leaves.bind
  · intro state result final hrun
    rw [chat] at hrun
    generalize retry around messages tools maxRetries state.world = asked at hrun
    obtain ⟨ended, attempts, world⟩ := asked
    have hchat : marks (state.trace ++ [.chat messages tools attempts]) =
        marks state.trace := by
      rw [marks_append]
      exact List.append_nil _
    cases ended <;> cases hrun <;> exact congrArg (Prod.mk _) hchat
  · intro drawn
    cases drawn with
    | error failure => exact .bind (.modify fun _ => rfl) fun _ => .fail _
    | ok outcome =>
        intro state result final hrun
        obtain ⟨response, ⟨promptTokens, cached, provider, completion, cost⟩, failed⟩ :=
          outcome
        cases promptTokens <;> cases hrun <;> rfl

theorem rounds_marks (trace : List TurnEvent) : rounds (marks trace) = rounds trace := by
  induction trace with
  | nil => rfl
  | cons event trace ih =>
      rw [← List.singleton_append, marks_append, rounds, List.filterMap_append,
        rounds, List.filterMap_append]
      congr 1
      cases event with
      | pushed message =>
          rw [marks, deeds, List.filter_singleton]
          cases (TurnEvent.pushed message).isDeed <;> rfl
      | _ => rfl

/-- The effect runs no round. -/
abbrev Roundless {Value : Type} (effect : TurnM World Value) : Prop :=
  Effect.Leaves (fun state => rounds state.trace) effect

theorem Roundless.run {Value : Type} {effect : TurnM World Value}
    (heffect : Roundless effect) {state final : TurnState World}
    {result : Except Error Value} (hrun : effect state = (result, final)) :
    rounds final.trace = rounds state.trace :=
  heffect state result final hrun

theorem roundless_of_aside {Value : Type} {effect : TurnM World Value}
    (heffect : Aside effect) : Roundless effect := by
  apply heffect.map
  intro state other hsame
  rw [← rounds_marks, ← rounds_marks state.trace]
  exact congrArg (rounds ·.2) hsame

theorem roundless_emit {event : TurnEvent} (hevent : event.round = none) :
    Roundless (emit event : TurnM World Unit) := by
  apply Effect.Leaves.modify
  intro state
  simp [rounds, hevent]

theorem roundless_push (message : Message) : Roundless (push around message) :=
  .bind (roundless_of_aside (aside_of_quiet (quiet_ask _))) fun _ =>
    roundless_emit rfl

theorem roundless_prepare (iteration : ℕ) :
    Roundless (prepare around cfg iteration) := by
  have hcheckpoint : Roundless (checkpoint around cfg iteration) := by
    rw [checkpoint]
    split
    · exact .bind (.modify fun _ => rfl) fun _ => roundless_push around _
    · exact .pure ()
  have hask {Value : Type} (question : World → Except String Value × World) :
      Roundless (ask question) :=
    roundless_of_aside (aside_of_quiet (quiet_ask question))
  exact .bind (roundless_of_aside (aside_of_quiet (quiet_cancelPoint around)))
    fun _ => .bind (.modify fun _ => rfl) fun _ => .bind (hask _) fun _ =>
      .bind hcheckpoint fun _ => hask _

theorem roundless_takeText (iteration : ℕ) (vars : LoopVars) (content : String) :
    Roundless (takeText around cfg iteration vars content) := by
  have hhold (nudged : Bool) :
      Roundless (holdOrReturn around cfg iteration vars content nudged) := by
    rw [holdOrReturn]
    split
    · exact .bind (.modify fun _ => rfl) fun _ => .bind (roundless_emit rfl) fun _ =>
        .bind (roundless_push around _) fun _ => .pure _
    · exact .pure _
  exact .bind (roundless_push around _) fun _ => .bind (.gets _) hhold

/-! ### Errors -/

def EngineError (error : Error) : Prop := ∃ text, error = .engine text

/-- Not the error of a turn that repeats itself. -/
def Other (error : Error) : Prop := error ≠ .noProgress

theorem EngineError.other {error : Error} (herror : EngineError error) :
    Other error := by
  obtain ⟨text, rfl⟩ := herror
  exact Error.noConfusion

theorem fails_ask {Value : Type} (question : World → Except String Value × World) :
    Effect.Fails EngineError (ask question) := by
  intro state error final hrun
  rw [ask] at hrun
  split at hrun
  · cases hrun
  · next text world hquestion =>
      cases hrun
      exact ⟨text, rfl⟩

theorem fails_push (message : Message) :
    Effect.Fails EngineError (push around message) :=
  .bind (fails_ask _) fun _ => .modify _

theorem fails_cancelPoint : Effect.Fails Other (cancelPoint around) := by
  intro state error final hrun
  rw [cancelPoint] at hrun
  split at hrun
  · cases hrun
    exact Error.noConfusion
  · cases hrun

theorem fails_prepare (iteration : ℕ) :
    Effect.Fails Other (prepare around cfg iteration) := by
  have hcheckpoint : Effect.Fails Other (checkpoint around cfg iteration) := by
    rw [checkpoint]
    split
    · exact .bind (.modify _) fun _ => (fails_push around _).mono fun _ => EngineError.other
    · exact .pure ()
  exact .bind (fails_cancelPoint around) fun _ => .bind (.modify _) fun _ =>
    .bind ((fails_ask _).mono fun _ => EngineError.other) fun _ =>
      .bind hcheckpoint fun _ => (fails_ask _).mono fun _ => EngineError.other

theorem fails_drawReply (messages : List Message) (tools : List ToolDefinition) :
    Effect.Fails Other (drawReply around messages tools) := by
  apply Effect.Fails.bind
  · intro state error final hrun
    rw [chat] at hrun
    generalize retry around messages tools maxRetries state.world = asked at hrun
    obtain ⟨ended, attempts, world⟩ := asked
    cases ended <;> cases hrun
    exact Error.noConfusion
  · intro drawn state error final hrun
    cases drawn with
    | error failure =>
        cases hrun
        exact Error.noConfusion
    | ok outcome =>
        obtain ⟨response, ⟨promptTokens, cached, provider, completion, cost⟩, failed⟩ :=
          outcome
        cases promptTokens <;> cases hrun

theorem fails_takeText (iteration : ℕ) (vars : LoopVars) (content : String) :
    Effect.Fails EngineError (takeText around cfg iteration vars content) := by
  have hhold (nudged : Bool) : Effect.Fails EngineError
      (holdOrReturn around cfg iteration vars content nudged) := by
    rw [holdOrReturn]
    split
    · exact .bind (.modify _) fun _ => .bind (.modify _) fun _ =>
        .bind (fails_push around _) fun _ => .pure _
    · exact .pure _
  apply Effect.Fails.bind (fails_push around _)
  intro _
  apply Effect.Fails.bind _ hhold
  intro state error final hrun
  cases (Effect.run_gets hrun).1

/-! ### One iteration -/

variable {around parse cfg}

/-- What an iteration comes to, with the rounds so far. -/
def FlowVerdict (parse : String → Option Json.Value) (rounds : List Round) :
    Except Error Flow → Prop
  | .ok (.next vars) => Counted parse vars rounds ∧ Ongoing parse rounds
  | .ok (.done output) => Verdict parse rounds (.ok output)
  | .error error => Verdict parse rounds (.error error)

/-- Nothing to do with the rounds ended the turn. -/
theorem Ongoing.verdict_other {rounds : List Round} (hongoing : Ongoing parse rounds)
    {error : Error} (herror : Other error) : Verdict parse rounds (.error error) := by
  apply hongoing.verdict
  · rintro hresult
    cases hresult
    exact herror rfl
  · exact fun reasons hresult => by cases hresult

theorem refuse_verdict {vars : LoopVars} {calls : List ToolCall}
    {state final : TurnState World} {result : Except Error Flow}
    (hcounted : Counted parse vars (rounds state.trace))
    (hongoing : Ongoing parse (rounds state.trace))
    (hreached : (vars.repeats.record parse calls).reached = true)
    (hrun : refuse around { vars with repeats := vars.repeats.record parse calls }
      calls state = (result, final)) :
    FlowVerdict parse (rounds final.trace) result := by
  have hround := hreached
  rw [hcounted.repeats] at hround
  rcases Effect.run_bind hrun with ⟨_, noted, hemit, hrun⟩ | ⟨error, hemit, _⟩
  swap
  · cases hemit
  have hnoted : rounds noted.trace = rounds state.trace ++ [.refused calls] := by
    rw [(Effect.run_modify hemit).2, rounds, List.filterMap_append]
    rfl
  have hpushes : Roundless (Effect.forEach
      (fun call => push around (.tool call.id repeatError)) calls) :=
    .forEach (fun _ => roundless_push around _) calls
  have hfails : Effect.Fails EngineError (Effect.forEach
      (fun call => push around (.tool call.id repeatError)) calls) :=
    .forEach (fun _ => fails_push around _) calls
  have hlast : refusedLast (rounds state.trace ++ [.refused calls]) =
      vars.repeatStrikes + 1 := by
    rw [refusedLast_concat, hcounted.repeatStrikes]
    rfl
  rcases Effect.run_bind hrun with ⟨_, pushed, hpush, hrun⟩ | ⟨error, hpush, rfl⟩
  · have hsame : rounds pushed.trace = rounds state.trace ++ [.refused calls] :=
      (hpushes.run hpush).trans hnoted
    split at hrun
    · next hlimit =>
        obtain ⟨rfl, rfl⟩ := Effect.run_fail hrun
        rw [FlowVerdict, hsame]
        exact hongoing.verdict_refused hround (.inr ⟨rfl, hlast ▸ hlimit⟩)
    · next hlimit =>
        obtain ⟨rfl, rfl⟩ := Effect.run_pure hrun
        rw [FlowVerdict, hsame]
        refine ⟨hcounted.refused parse calls, hongoing.concat hround.symm ?_ ?_⟩
        · rw [hlast]
          exact Nat.lt_of_not_le hlimit
        · rw [policyLimit_concat_nil rfl]
          exact hongoing.policy
  · obtain ⟨text, rfl⟩ := hfails _ _ _ hpush
    have hsame : rounds final.trace = rounds state.trace ++ [.refused calls] :=
      (hpushes.run hpush).trans hnoted
    rw [FlowVerdict, hsame]
    exact hongoing.verdict_refused hround (.inl ⟨text, rfl⟩)

/-- The variables after a round that ran, policies apart. -/
abbrev ranVars (parse : String → Option Json.Value) (vars : LoopVars)
    (calls : List ToolCall) (recording : Recording) : LoopVars :=
  { vars with
    repeats := vars.repeats.record parse calls
    repeatStrikes := 0
    toolStrikes := recording.toolStrikes
    hints := recording.hints }

section Ran

variable {vars : LoopVars} {before : List Round} {calls : List ToolCall}
  {results : List ToolResult} {recording : Recording}

theorem ran_ongoing (hongoing : Ongoing parse before)
    (hround : ((detect parse .new before).record parse calls).reached = false)
    (hpolicy : ¬ PolicyLimit (before ++ [.executed calls results])) :
    Ongoing parse (before ++ [.executed calls results]) := by
  have hrefused : refusedLast (before ++ [.executed calls results]) <
      repeatStrikeLimit := by
    rw [refusedLast_concat]
    exact Nat.succ_pos _
  exact hongoing.concat hround.symm hrefused hpolicy

/-- The round had no blocked call. -/
theorem ran_unblocked (hcounted : Counted parse vars before)
    (hongoing : Ongoing parse before)
    (hround : ((detect parse .new before).record parse calls).reached = false)
    (hrecording : recording = (calls.zip results).foldl (recordOne parse)
      ⟨vars.toolStrikes, vars.hints, none, []⟩)
    (hblocked : blockedCalls results = []) :
    Counted parse (ranVars parse vars calls recording)
        (before ++ [.executed calls results]) ∧
      Ongoing parse (before ++ [.executed calls results]) := by
  have hguidances : (Round.executed calls results).guidances = [] := by
    rw [Round.guidances, hblocked]
    rfl
  constructor
  · apply hcounted.executed parse hrecording rfl rfl rfl
    · intro guidance
      rw [hguidances, if_neg List.not_mem_nil]
      rfl
    · rw [hguidances, if_neg (not_not.2 rfl)]
      rfl
  · apply ran_ongoing hongoing hround
    rw [policyLimit_concat_nil hguidances]
    exact hongoing.policy

/-- The round had blocked calls, too few to halt. -/
theorem ran_blocked (hcounted : Counted parse vars before)
    (hongoing : Ongoing parse before)
    (hround : ((detect parse .new before).record parse calls).reached = false)
    (hrecording : recording = (calls.zip results).foldl (recordOne parse)
      ⟨vars.toolStrikes, vars.hints, none, []⟩)
    (hblocked : blockedCalls results ≠ [])
    (hstrike : ¬ PolicyLimit (before ++ [.executed calls results])) :
    Counted parse
        ((ranVars parse vars calls recording).strike (blockedCalls results)).1
        (before ++ [.executed calls results]) ∧
      Ongoing parse (before ++ [.executed calls results]) := by
  refine ⟨?_, ran_ongoing hongoing hround hstrike⟩
  have hguidances : (Round.executed calls results).guidances ≠ [] := by
    rw [Round.guidances, Ne, List.map_eq_nil_iff]
    exact hblocked
  apply hcounted.executed parse hrecording rfl rfl rfl
  · exact (strikePolicies_spec _ _ _).1
  · rw [if_pos hguidances]
    rfl

theorem settleRound_verdict {state final : TurnState World}
    {result : Except Error Flow}
    (htrace : rounds state.trace = before ++ [.executed calls results])
    (hcounted : Counted parse vars before) (hongoing : Ongoing parse before)
    (hround : ((detect parse .new before).record parse calls).reached = false)
    (hrecording : recording = (calls.zip results).foldl (recordOne parse)
      ⟨vars.toolStrikes, vars.hints, none, []⟩)
    (hrun : settleRound around (ranVars parse vars calls recording) recording.halt
      (blockedCalls results) state = (result, final)) :
    FlowVerdict parse (rounds final.trace) result := by
  have htool := hcounted.halt_iff parse hrecording
  rw [settleRound.eq_def] at hrun
  cases hhalt : recording.halt with
  | some halt =>
      rw [hhalt] at hrun htool
      obtain ⟨rfl, rfl⟩ := Effect.run_pure hrun
      have hlimit : ToolLimit parse before (.executed calls results) := by
        by_contra hnone
        cases htool.2 hnone
      have hshape := (recording_spec parse (calls.zip results)
        ⟨vars.toolStrikes, vars.hints, none, []⟩).2.2 halt (hrecording ▸ hhalt)
      rw [FlowVerdict, htrace]
      apply hongoing.verdict_executed hround
      rcases hshape with hnone | ⟨tool, args, errorClass, count, rfl⟩
      · cases hnone
      · exact .inr (.inl ⟨hlimit, tool, args, errorClass, count, rfl⟩)
  | none =>
      rw [hhalt] at hrun
      have hlimit := htool.1 hhalt
      dsimp only at hrun
      split_ifs at hrun with hblocked hstrike
      · obtain ⟨rfl, rfl⟩ := Effect.run_pure hrun
        rw [FlowVerdict, htrace]
        exact ran_unblocked hcounted hongoing hround hrecording hblocked
      · obtain ⟨rfl, rfl⟩ := Effect.run_pure hrun
        rw [FlowVerdict, htrace]
        have hpolicy : PolicyLimit (before ++ [.executed calls results]) :=
          (hcounted.strike_iff parse hongoing.policy hblocked).1 hstrike
        exact hongoing.verdict_executed hround (.inr (.inr ⟨hlimit, hpolicy, rfl⟩))
      · have hpolicy : ¬ PolicyLimit (before ++ [.executed calls results]) :=
          fun hreached => hstrike
            ((hcounted.strike_iff parse hongoing.policy hblocked).2 hreached)
        rcases Effect.run_bind hrun with ⟨_, pushed, hpush, hrun⟩ | ⟨error, hpush, rfl⟩
        · obtain ⟨rfl, rfl⟩ := Effect.run_pure hrun
          rw [FlowVerdict, Roundless.run (roundless_push around _) hpush, htrace]
          exact ran_blocked hcounted hongoing hround hrecording hblocked hpolicy
        · obtain ⟨text, rfl⟩ := fails_push around _ _ _ _ hpush
          rw [FlowVerdict, Roundless.run (roundless_push around _) hpush, htrace]
          exact hongoing.verdict_executed hround (.inl ⟨text, rfl⟩)

end Ran

theorem roundless_recordToolResults (recording : Recording)
    (round : List (ToolCall × ToolResult)) :
    Roundless (recordToolResults around parse recording round) :=
  roundless_of_aside (aside_of_quiet (quiet_recordToolResults around parse _ _))

theorem roundless_pushHints (hints : List String) :
    Roundless (pushHints around hints) := by
  rw [pushHints]
  split
  · exact .pure ()
  · exact roundless_push around _

theorem fails_pushHints (hints : List String) :
    Effect.Fails EngineError (pushHints around hints) := by
  rw [pushHints]
  split
  · exact .pure ()
  · exact fails_push around _

theorem run_execute {calls : List ToolCall} {state final : TurnState World}
    {result : Except Error (List ToolResult)}
    (hrun : execute around calls state = (result, final)) :
    (result = .error .cancelled ∧ rounds final.trace = rounds state.trace) ∨
      ∃ results, result = .ok results ∧
        rounds final.trace = rounds state.trace ++ [.executed calls results] := by
  rw [execute] at hrun
  split at hrun
  · cases hrun
    exact .inl ⟨rfl, rfl⟩
  · next round world hquestion =>
      cases hrun
      refine .inr ⟨round.results, rfl, ?_⟩
      rw [rounds, List.filterMap_append]
      rfl

theorem runTools_verdict {vars : LoopVars} {calls : List ToolCall}
    {state final : TurnState World} {result : Except Error Flow}
    (hcounted : Counted parse vars (rounds state.trace))
    (hongoing : Ongoing parse (rounds state.trace))
    (hreached : (vars.repeats.record parse calls).reached = false)
    (hrun : runTools around parse
      { vars with repeats := vars.repeats.record parse calls } calls state =
        (result, final)) :
    FlowVerdict parse (rounds final.trace) result := by
  have hround := hreached
  rw [hcounted.repeats] at hround
  rcases Effect.run_bind hrun with ⟨_, noted, hnoted, hrun⟩ | ⟨error, hnoted, _⟩
  swap
  · cases hnoted
  have hsame : rounds noted.trace = rounds state.trace := by
    rw [(Effect.run_modify hnoted).2]
  rcases Effect.run_bind hrun with ⟨results, ran, hran, hrun⟩ | ⟨error, hran, rfl⟩
  swap
  · rcases run_execute hran with ⟨herror, hrounds⟩ | ⟨results, hresults, _⟩
    · cases herror
      rw [FlowVerdict, hrounds, hsame]
      exact hongoing.verdict_other Error.noConfusion
    · cases hresults
  rcases run_execute hran with ⟨herror, _⟩ | ⟨_, hresults, hrounds⟩
  · cases herror
  cases hresults
  rcases Effect.run_bind hrun with ⟨recording, recorded, hrecorded, hrun⟩ |
    ⟨error, hrecorded, _⟩
  swap
  · have hok := recordToolResults_eq around parse
      ⟨vars.toolStrikes, vars.hints, none, []⟩ (calls.zip results) ran
    rw [hrecorded] at hok
    cases hok
  have hrecording := recordToolResults_eq around parse
    ⟨vars.toolStrikes, vars.hints, none, []⟩ (calls.zip results) ran
  rw [hrecorded] at hrecording
  have hafter : rounds recorded.trace =
      rounds state.trace ++ [.executed calls results] := by
    rw [(roundless_recordToolResults _ _).run hrecorded, hrounds, hsame]
  rcases Effect.run_bind hrun with ⟨_, hinted, hhints, hrun⟩ | ⟨error, hhints, rfl⟩
  · apply settleRound_verdict _ hcounted hongoing hround (Except.ok.inj hrecording) hrun
    rw [(roundless_pushHints _).run hhints, hafter]
  · obtain ⟨text, rfl⟩ := fails_pushHints _ _ _ _ hhints
    rw [FlowVerdict, (roundless_pushHints _).run hhints, hafter]
    exact hongoing.verdict_executed hround (.inl ⟨text, rfl⟩)

theorem takeCalls_verdict {vars : LoopVars} {content : String} {calls : List ToolCall}
    {state final : TurnState World} {result : Except Error Flow}
    (hcounted : Counted parse vars (rounds state.trace))
    (hongoing : Ongoing parse (rounds state.trace))
    (hrun : takeCalls around parse vars content calls state = (result, final)) :
    FlowVerdict parse (rounds final.trace) result := by
  rcases Effect.run_bind hrun with ⟨_, pushed, hpush, hrun⟩ | ⟨error, hpush, rfl⟩
  · have hsame := Roundless.run (roundless_push around _) hpush
    rw [← hsame] at hcounted hongoing
    rw [judgeCalls] at hrun
    split at hrun
    · next hreached => exact refuse_verdict hcounted hongoing hreached hrun
    · next hreached =>
        rw [Bool.not_eq_true] at hreached
        exact runTools_verdict hcounted hongoing hreached hrun
  · rw [FlowVerdict, Roundless.run (roundless_push around _) hpush]
    exact hongoing.verdict_other (fails_push around _ _ _ _ hpush).other

theorem run_holdOrReturn {iteration : ℕ} {vars : LoopVars} {content : String}
    {nudged : Bool} {state final : TurnState World} {flow : Flow}
    (hrun : holdOrReturn around cfg iteration vars content nudged state =
      (.ok flow, final)) :
    flow = .next vars ∨ flow = .done (.text content) := by
  rw [holdOrReturn] at hrun
  split at hrun
  · rcases Effect.run_bind hrun with ⟨_, _, _, hrun⟩ | ⟨error, _, herror⟩
    · rcases Effect.run_bind hrun with ⟨_, _, _, hrun⟩ | ⟨error, _, herror⟩
      · rcases Effect.run_bind hrun with ⟨_, _, _, hrun⟩ | ⟨error, _, herror⟩
        · cases (Effect.run_pure hrun).1
          exact .inl rfl
        · cases herror
      · cases herror
    · cases herror
  · cases (Effect.run_pure hrun).1
    exact .inr rfl

theorem takeText_verdict {iteration : ℕ} {vars : LoopVars} {content : String}
    {state final : TurnState World} {result : Except Error Flow}
    (hcounted : Counted parse vars (rounds state.trace))
    (hongoing : Ongoing parse (rounds state.trace))
    (hrun : takeText around cfg iteration vars content state = (result, final)) :
    FlowVerdict parse (rounds final.trace) result := by
  have hsame := Roundless.run (roundless_takeText around cfg _ _ _) hrun
  rw [← hsame] at hcounted hongoing
  cases result with
  | error error =>
      exact hongoing.verdict_other (fails_takeText around cfg _ _ _ _ _ _ hrun).other
  | ok flow =>
      rcases Effect.run_bind hrun with ⟨_, _, _, hrun⟩ | ⟨error, _, herror⟩
      · rcases Effect.run_bind hrun with ⟨nudged, _, _, hrun⟩ | ⟨error, _, herror⟩
        · rcases run_holdOrReturn hrun with rfl | rfl
          · exact ⟨hcounted, hongoing⟩
          · apply hongoing.verdict
            · intro hresult
              cases hresult
            · intro reasons hresult
              cases hresult
        · cases herror
      · cases herror

/-- One iteration keeps the counters true or ends the turn with its verdict. -/
theorem iterate_verdict {iteration : ℕ} {vars : LoopVars}
    {state final : TurnState World} {result : Except Error Flow}
    (hcounted : Counted parse vars (rounds state.trace))
    (hongoing : Ongoing parse (rounds state.trace))
    (hrun : iterate around parse cfg iteration vars state = (result, final)) :
    FlowVerdict parse (rounds final.trace) result := by
  rcases Effect.run_bind hrun with ⟨messages, ready, hready, hrun⟩ |
    ⟨error, hready, rfl⟩
  swap
  · rw [FlowVerdict, Roundless.run (roundless_prepare around cfg _) hready]
    exact hongoing.verdict_other (fails_prepare around cfg _ _ _ _ hready)
  have hprepared := Roundless.run (roundless_prepare around cfg _) hready
  rcases Effect.run_bind hrun with ⟨reply, drawn, hdrawn, hrun⟩ | ⟨error, hdrawn, rfl⟩
  swap
  · rw [FlowVerdict, (roundless_of_aside (aside_drawReply around _ _)).run hdrawn,
      hprepared]
    exact hongoing.verdict_other (fails_drawReply around _ _ _ _ _ hdrawn)
  have hsame := (roundless_of_aside (aside_drawReply around _ _)).run hdrawn
  rw [← hprepared, ← hsame] at hcounted hongoing
  cases reply with
  | text content => exact takeText_verdict hcounted hongoing hrun
  | toolCalls content calls => exact takeCalls_verdict hcounted hongoing hrun

/-! ### The loop -/

/-- How the loop ends; `none` at the cap. -/
def LoopVerdict (parse : String → Option Json.Value) (rounds : List Round) :
    Except Error (Option TurnOutput) → Prop
  | .ok none => Ongoing parse rounds
  | .ok (some output) => Verdict parse rounds (.ok output)
  | .error error => Verdict parse rounds (.error error)

theorem loop_verdict {left iteration : ℕ} {vars : LoopVars}
    {state final : TurnState World} {result : Except Error (Option TurnOutput)}
    (hcounted : Counted parse vars (rounds state.trace))
    (hongoing : Ongoing parse (rounds state.trace))
    (hrun : loop around parse cfg left iteration vars state = (result, final)) :
    LoopVerdict parse (rounds final.trace) result := by
  induction left generalizing iteration vars state with
  | zero =>
      obtain ⟨rfl, rfl⟩ := Effect.run_pure hrun
      exact hongoing
  | succ left ih =>
      rcases Effect.run_bind hrun with ⟨flow, between, hflow, hrun⟩ |
        ⟨error, hflow, rfl⟩
      · have hverdict := iterate_verdict hcounted hongoing hflow
        cases flow with
        | next after => exact ih hverdict.1 hverdict.2 hrun
        | done output =>
            obtain ⟨rfl, rfl⟩ := Effect.run_pure hrun
            exact hverdict
      · exact iterate_verdict hcounted hongoing hflow

theorem roundless_squeeze (directive : String) :
    Roundless (squeeze around cfg directive) := by
  have hask : Roundless (ask (around.assemble cfg.systemPrompt)) :=
    roundless_of_aside (aside_of_quiet (quiet_ask _))
  have hdraw (messages : List Message) : Roundless (drawReply around messages []) :=
    roundless_of_aside (aside_drawReply around _ _)
  exact .bind (.modify fun _ => rfl) fun _ => .bind (roundless_push around _) fun _ =>
    .bind hask fun _ => .bind (hdraw _) fun _ =>
      .bind (roundless_push around _) fun _ => .pure _

theorem fails_squeeze (directive : String) :
    Effect.Fails Other (squeeze around cfg directive) := by
  have hpush (message : Message) : Effect.Fails Other (push around message) :=
    (fails_push around _).mono fun _ => EngineError.other
  exact .bind (.modify _) fun _ => .bind (hpush _) fun _ =>
    .bind ((fails_ask _).mono fun _ => EngineError.other) fun _ =>
      .bind (fails_drawReply around _ _) fun _ => .bind (hpush _) fun _ => .pure _

/-- The cap ends a turn without a verdict on its rounds. -/
theorem spent_other {state final : TurnState World} {result : Except Error TurnOutput}
    (hrun : spent around cfg state = (result, final)) :
    rounds final.trace = rounds state.trace ∧ result ≠ .error .noProgress ∧
      ∀ reasons, result ≠ .ok (.policyHalt reasons) := by
  rw [spent.eq_def] at hrun
  cases hbudget : cfg.budget with
  | fail =>
      rw [hbudget] at hrun
      dsimp only at hrun
      rw [stateReport.eq_def] at hrun
      split at hrun
      all_goals
        next hsqueeze =>
          cases hrun
          refine ⟨Roundless.run (roundless_squeeze _) hsqueeze, ?_, ?_⟩
          · intro hresult
            cases hresult
          · intro reasons hresult
            cases hresult
  | finalAnswer =>
      rw [hbudget] at hrun
      rcases Effect.run_bind hrun with ⟨content, squeezed, hsqueeze, hrun⟩ |
        ⟨error, hsqueeze, rfl⟩
      · obtain ⟨rfl, rfl⟩ := Effect.run_pure hrun
        refine ⟨Roundless.run (roundless_squeeze _) hsqueeze, ?_, ?_⟩
        · intro hresult
          cases hresult
        · intro reasons hresult
          cases hresult
      · refine ⟨Roundless.run (roundless_squeeze _) hsqueeze, ?_, ?_⟩
        · intro hresult
          exact fails_squeeze _ _ _ _ hsqueeze (Except.error.inj hresult)
        · intro reasons hresult
          cases hresult

/-- Every turn from the start ends with the verdict of its rounds. -/
theorem turnLoop_verdict {world : World} {final : TurnState World}
    {result : Except Error TurnOutput}
    (hrun : turnLoop around parse cfg ⟨world, .new, []⟩ = (result, final)) :
    Verdict parse (rounds final.trace) result := by
  have hcancel : Roundless (cancelPoint around) :=
    roundless_of_aside (aside_of_quiet (quiet_cancelPoint around))
  have hpush := roundless_push around (.user cfg.userMessage)
  rcases Effect.run_bind hrun with ⟨_, started, hstarted, hrun⟩ | ⟨error, hstarted, rfl⟩
  swap
  · rw [hcancel.run hstarted]
    exact ongoing_nil.verdict_other (fails_cancelPoint around _ _ _ hstarted)
  rcases Effect.run_bind hrun with ⟨_, pushed, hpushed, hrun⟩ | ⟨error, hpushed, rfl⟩
  swap
  · rw [hpush.run hpushed, hcancel.run hstarted]
    exact ongoing_nil.verdict_other (fails_push around _ _ _ _ hpushed).other
  have hstart : rounds pushed.trace = [] := by
    rw [hpush.run hpushed, hcancel.run hstarted]
    rfl
  have hcounted : Counted parse .new (rounds pushed.trace) := hstart ▸ counted_new parse
  have hongoing : Ongoing parse (rounds pushed.trace) := hstart ▸ ongoing_nil
  rcases Effect.run_bind hrun with ⟨output, looped, hlooped, hrun⟩ | ⟨error, hlooped, rfl⟩
  · have hverdict := loop_verdict hcounted hongoing hlooped
    cases output with
    | some output =>
        obtain ⟨rfl, rfl⟩ := Effect.run_pure hrun
        exact hverdict
    | none =>
        obtain ⟨hsame, hprogress, hpolicy⟩ := spent_other hrun
        rw [hsame]
        exact hverdict.verdict hprogress hpolicy
  · exact loop_verdict hcounted hongoing hlooped

end Marks

end Kitaebot.Agent
