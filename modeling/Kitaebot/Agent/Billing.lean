import Kitaebot.Agent.Deeds

/-!
# Billing

The meter of a turn sums the draws that were made for it: every attempt that the
endpoint answered, whether it parsed or not, on whatever way the turn ends,
cancellation apart.  Summaries bill to a ledger row of their own.
-/

namespace Kitaebot.Agent

/-! ### The draws of a request -/

theorem draw_of_attempt_ok {sent : Except ProviderError ChatResponse}
    {reply : Response} {usage : CallUsage} (hok : attempt sent = .ok (reply, usage)) :
    draw sent = some usage := by
  cases sent with
  | error error => cases hok
  | ok response =>
      rw [attempt] at hok
      split at hok
      · cases hok
        rfl
      · cases hok

theorem draw_of_attempt_error {sent : Except ProviderError ChatResponse}
    {failure : AttemptError} (herror : attempt sent = .error failure) :
    draw sent = failure.usage := by
  cases sent with
  | error error =>
      cases herror
      rfl
  | ok response =>
      rw [attempt] at herror
      split at herror
      · cases herror
      · cases herror
        rfl

theorem failedDraw_of_ok {sent : Except ProviderError ChatResponse}
    {reply : Response} {usage : CallUsage} (hok : attempt sent = .ok (reply, usage)) :
    failedDraw sent = none := by
  rw [failedDraw, hok]

/-- A failed attempt is billed for what was drawn. -/
theorem failedDraw_of_error {sent : Except ProviderError ChatResponse}
    {failure : AttemptError} (herror : attempt sent = .error failure) :
    failedDraw sent = draw sent := by
  rw [failedDraw, herror, draw_of_attempt_error herror]

section Draws

variable {World : Type} (around : Surroundings World)

/-- The draws of a request are the failed ones it reports, then the one that
succeeded. -/
def ChatEnd.Reports (ended : ChatEnd)
    (attempts : List (Except ProviderError ChatResponse)) : Prop :=
  match ended with
  | .replied _ usage => draws attempts = failedUsage attempts ++ [usage]
  | .failed _ => draws attempts = failedUsage attempts
  | .cancelled => True

theorem Reports.replied {sent : Except ProviderError ChatResponse}
    {reply : Response} {usage : CallUsage} (hok : attempt sent = .ok (reply, usage)) :
    (ChatEnd.replied reply usage).Reports [sent] := by
  simp [ChatEnd.Reports, draws, failedUsage, failedDraw_of_ok hok,
    draw_of_attempt_ok hok]

theorem Reports.failed {sent : Except ProviderError ChatResponse}
    {failure : AttemptError} (herror : attempt sent = .error failure) :
    (ChatEnd.failed failure.error).Reports [sent] := by
  simp only [ChatEnd.Reports, draws, failedUsage, List.filterMap_cons,
    List.filterMap_nil, failedDraw_of_error herror]

/-- A failed attempt before the others is reported with them. -/
theorem Reports.cons {sent : Except ProviderError ChatResponse}
    {failure : AttemptError} (herror : attempt sent = .error failure)
    {ended : ChatEnd} {attempts : List (Except ProviderError ChatResponse)}
    (hrest : ended.Reports attempts) : ended.Reports (sent :: attempts) := by
  have hdraws : draws (sent :: attempts) = (draw sent).toList ++ draws attempts := by
    rw [draws, List.filterMap_cons]
    cases draw sent <;> rfl
  have hfailed : failedUsage (sent :: attempts) =
      (draw sent).toList ++ failedUsage attempts := by
    rw [failedUsage, List.filterMap_cons, failedDraw_of_error herror]
    cases draw sent <;> rfl
  cases ended with
  | replied reply usage =>
      rw [ChatEnd.Reports] at hrest ⊢
      rw [hdraws, hfailed, hrest, List.append_assoc]
  | failed error =>
      rw [ChatEnd.Reports] at hrest ⊢
      rw [hdraws, hfailed, hrest]
  | cancelled => trivial

theorem retry_reports (messages : List Message) (tools : List ToolDefinition)
    (left : ℕ) (world : World) :
    (retry around messages tools left world).1.Reports
      (retry around messages tools left world).2.1 := by
  induction left generalizing world with
  | zero =>
      rw [retry]
      split
      · trivial
      · split
        · next hok => exact Reports.replied hok
        · next herror => exact Reports.failed herror
  | succ left ih =>
      rw [retry]
      split
      · trivial
      · split
        · next hok => exact Reports.replied hok
        · next failure herror =>
            dsimp only
            split
            · exact Reports.failed herror
            · split
              · trivial
              · next world _ => exact Reports.cons herror (ih world)

/-! ### The draws of a turn -/

def TurnEvent.draws : TurnEvent → List CallUsage
  | .chat _ _ attempts => Agent.draws attempts
  | _ => []

/-- All draws that were made for a turn. -/
def turnDraws (trace : List TurnEvent) : List CallUsage :=
  trace.flatMap TurnEvent.draws

theorem turnDraws_append (first second : List TurnEvent) :
    turnDraws (first ++ second) = turnDraws first ++ turnDraws second :=
  List.flatMap_append

/-- What the meter says and what was drawn. -/
def account (state : TurnState World) : TurnUsage × List CallUsage :=
  (state.stats.usage, turnDraws state.trace)

def Billed (state : TurnState World) : Prop :=
  (account state).1 = TurnUsage.ofDraws (account state).2

theorem billed_of_account {state other : TurnState World}
    (haccount : account other = account state) (hstate : Billed state) :
    Billed other := by
  rw [Billed, haccount]
  exact hstate

/-- The effect neither draws nor bills. -/
abbrev Free {Value : Type} (effect : TurnM World Value) : Prop :=
  Effect.Leaves account effect

theorem free_emit {event : TurnEvent} (hevent : event.draws = []) :
    Free (emit event : TurnM World Unit) := by
  apply Effect.Leaves.modify
  intro state
  simp only [account, turnDraws_append]
  simp [turnDraws, hevent]

theorem free_changeStats {change : TurnStats → TurnStats}
    (hchange : ∀ stats, (change stats).usage = stats.usage) :
    Free (changeStats change : TurnM World Unit) := by
  apply Effect.Leaves.modify
  intro state
  simp only [account, hchange]

/-- Pushes draw nothing. -/
theorem turnDraws_deeds (trace : List TurnEvent) :
    turnDraws (deeds trace) = turnDraws trace := by
  induction trace with
  | nil => rfl
  | cons event trace ih =>
      rw [deeds, List.filter_cons]
      split
      · exact congrArg (event.draws ++ ·) ih
      · next hdeed =>
          have hnone : event.draws = [] := by
            cases event with
            | pushed message => rfl
            | _ => exact absurd rfl hdeed
          change turnDraws (deeds trace) = event.draws ++ turnDraws trace
          rw [ih, hnone, List.nil_append]

theorem free_of_quiet {Value : Type} {effect : TurnM World Value}
    (heffect : Quiet effect) : Free effect := by
  intro state result final hrun
  have hsame := heffect state result final hrun
  rw [ledger, ledger, Prod.mk.injEq, Prod.mk.injEq] at hsame
  obtain ⟨husage, _, hdeeds⟩ := hsame
  rw [account, account, ← turnDraws_deeds, ← turnDraws_deeds state.trace]
  exact Prod.ext husage (congrArg turnDraws hdeeds)

theorem free_push (message : Message) : Free (push around message) :=
  .bind (free_of_quiet (quiet_ask _)) fun _ => free_emit rfl

theorem free_execute (calls : List ToolCall) : Free (execute around calls) := by
  intro state result final hrun
  rw [execute] at hrun
  split at hrun
  · obtain ⟨-, rfl⟩ := Prod.mk.inj hrun
    rfl
  · obtain ⟨-, rfl⟩ := Prod.mk.inj hrun
    simp only [account, turnDraws_append]
    simp [turnDraws, TurnEvent.draws]

section Iteration

variable (parse : String → Option Json.Value) (cfg : TurnConfig)

theorem free_prepare (iteration : ℕ) : Free (prepare around cfg iteration) := by
  have hcheckpoint : Free (checkpoint around cfg iteration) := by
    rw [checkpoint]
    split
    · exact .bind (free_changeStats fun _ => rfl) fun _ => free_push around _
    · exact .pure ()
  exact .bind (free_of_quiet (quiet_cancelPoint around)) fun _ =>
    .bind (free_changeStats fun _ => rfl) fun _ =>
      .bind (free_of_quiet (quiet_ask _)) fun _ =>
        .bind hcheckpoint fun _ => free_of_quiet (quiet_ask _)

theorem free_takeText (iteration : ℕ) (vars : LoopVars) (content : String) :
    Free (takeText around cfg iteration vars content) := by
  have hhold (nudged : Bool) :
      Free (holdOrReturn around cfg iteration vars content nudged) := by
    rw [holdOrReturn]
    split
    · exact .bind (free_changeStats fun _ => rfl) fun _ =>
        .bind (free_emit rfl) fun _ => .bind (free_push around _) fun _ => .pure _
    · exact .pure _
  exact .bind (free_push around _) fun _ => .bind (.gets _) hhold

theorem free_refuse (vars : LoopVars) (calls : List ToolCall) :
    Free (refuse around vars calls) := by
  apply Effect.Leaves.bind (free_emit rfl)
  intro _
  apply Effect.Leaves.bind (.forEach (fun _ => free_push around _) calls)
  intro _
  split
  · exact .fail _
  · exact .pure _

theorem free_settleRound (vars : LoopVars) (halt : Option TurnOutput)
    (blocked : List (String × String)) :
    Free (settleRound around vars halt blocked) := by
  cases halt with
  | some halt => exact .pure _
  | none =>
      rw [settleRound]
      split
      · exact .pure _
      · split
        · exact .pure _
        · exact .bind (free_push around _) fun _ => .pure _

theorem free_runTools (vars : LoopVars) (calls : List ToolCall) :
    Free (runTools around parse vars calls) := by
  have hhints (hints : List String) : Free (pushHints around hints) := by
    rw [pushHints]
    split
    · exact .pure ()
    · exact free_push around _
  exact .bind (free_changeStats fun _ => rfl) fun _ =>
    .bind (free_execute around calls) fun _ =>
      .bind (free_of_quiet (quiet_recordToolResults around parse _ _)) fun _ =>
        .bind (hhints _) fun _ => free_settleRound around _ _ _

theorem free_takeReply (iteration : ℕ) (vars : LoopVars) (reply : Response) :
    Free (takeReply around parse cfg iteration vars reply) := by
  cases reply with
  | text content => exact free_takeText around cfg iteration vars content
  | toolCalls content calls =>
      apply Effect.Leaves.bind (free_push around _)
      intro _
      rw [judgeCalls]
      split
      · exact free_refuse around _ calls
      · exact free_runTools around parse _ calls

/-! ### The meter -/

/-- The effect leaves the meter right, unless the turn was cancelled. -/
abbrev Bills {Value : Type} (effect : TurnM World Value) : Prop :=
  Effect.Keeps (· = .cancelled) Billed effect

theorem bills_of_free {Value : Type} {effect : TurnM World Value}
    (heffect : Free effect) : Bills effect :=
  .of_leaves (fun _ _ => billed_of_account) heffect

theorem settleDraw_ok (messages : List Message) (tools : List ToolDefinition)
    (outcome : ChatOutcome) (state : TurnState World) :
    (settleDraw around messages tools (.ok outcome) state).2.stats.usage =
        (state.stats.usage.addFailed outcome.failed).addCall outcome.usage ∧
      (settleDraw around messages tools (.ok outcome) state).2.trace =
        state.trace := by
  obtain ⟨response, ⟨promptTokens, cached, provider, completion, cost⟩, failed⟩ :=
    outcome
  cases promptTokens <;> exact ⟨rfl, rfl⟩

/-- Every draw of a request is billed, the failed ones of a failed request
too. -/
theorem bills_drawReply (messages : List Message) (tools : List ToolDefinition) :
    Bills (drawReply around messages tools) := by
  intro state result final hrun hstate hresult
  rcases Effect.run_bind hrun with
    ⟨drawn, between, hchat, hsettle⟩ | ⟨error, hchat, rfl⟩
  · have hreports := retry_reports around messages tools maxRetries state.world
    rw [chat] at hchat
    generalize retry around messages tools maxRetries state.world = asked
      at hchat hreports
    obtain ⟨ended, attempts, world⟩ := asked
    have hbilled : state.stats.usage.addFailed (draws attempts) =
        TurnUsage.ofDraws
          (turnDraws (state.trace ++ [.chat messages tools attempts])) := by
      have husage : state.stats.usage =
          TurnUsage.none.addFailed (turnDraws state.trace) := hstate
      have hnew : turnDraws [.chat messages tools attempts] = draws attempts :=
        List.append_nil _
      rw [turnDraws_append, TurnUsage.ofDraws, TurnUsage.addFailed_append, ← husage,
        hnew]
    cases ended with
    | replied reply usage =>
        cases hchat
        obtain ⟨husage, htrace⟩ := settleDraw_ok around messages tools
          ⟨reply, usage, failedUsage attempts⟩
          ⟨world, state.stats, state.trace ++ [.chat messages tools attempts]⟩
        rw [hsettle] at husage htrace
        rw [Billed, account, husage, htrace, ← hbilled, hreports,
          TurnUsage.addFailed_append, TurnUsage.addFailed_singleton]
    | failed error =>
        cases hchat
        cases hsettle
        rw [ChatEnd.Reports] at hreports
        rw [hreports] at hbilled
        exact hbilled
    | cancelled => cases hchat
  · have hcancelled : error = .cancelled := by
      rw [chat] at hchat
      generalize retry around messages tools maxRetries state.world = asked at hchat
      obtain ⟨ended, attempts, world⟩ := asked
      cases ended <;> cases hchat
      rfl
    exact absurd hcancelled (hresult error rfl)

theorem bills_iterate (iteration : ℕ) (vars : LoopVars) :
    Bills (iterate around parse cfg iteration vars) :=
  .bind (bills_of_free (free_prepare around cfg iteration)) fun messages =>
    .bind (bills_drawReply around messages cfg.tools) fun reply =>
      bills_of_free (free_takeReply around parse cfg iteration vars reply)

theorem bills_loop (left iteration : ℕ) (vars : LoopVars) :
    Bills (loop around parse cfg left iteration vars) := by
  induction left generalizing iteration vars with
  | zero => exact bills_of_free (.pure none)
  | succ left ih =>
      apply Effect.Keeps.bind (bills_iterate around parse cfg iteration vars)
      intro flow
      cases flow with
      | done output => exact bills_of_free (.pure _)
      | next vars => exact ih (iteration + 1) vars

theorem bills_squeeze (directive : String) :
    Bills (squeeze around cfg directive) :=
  .bind (bills_of_free (free_changeStats fun _ => rfl)) fun _ =>
    .bind (bills_of_free (free_push around _)) fun _ =>
      .bind (bills_of_free (free_of_quiet (quiet_ask _))) fun messages =>
        .bind (bills_drawReply around messages []) fun _ =>
          bills_of_free (.bind (free_push around _) fun _ => .pure _)

/-- Whatever a failed report becomes, its draws are billed. -/
theorem bills_stateReport : Bills (stateReport around cfg) := by
  intro state result final hrun hstate hresult
  have hsqueeze := bills_squeeze around cfg stateReportDirective state
  rw [stateReport] at hrun
  generalize squeeze around cfg stateReportDirective state = squeezed at hrun hsqueeze
  obtain ⟨report, after⟩ := squeezed
  cases report with
  | ok report =>
      cases hrun
      exact hsqueeze _ _ rfl hstate fun error herror => by cases herror
  | error error =>
      cases error with
      | cancelled =>
          cases hrun
          exact absurd rfl (hresult .cancelled rfl)
      | _ =>
          cases hrun
          exact hsqueeze _ _ rfl hstate fun error herror => by
            cases herror
            exact Error.noConfusion

theorem bills_turnLoop : Bills (turnLoop around parse cfg) := by
  apply Effect.Keeps.bind (bills_of_free (free_of_quiet (quiet_cancelPoint around)))
  intro _
  apply Effect.Keeps.bind (bills_of_free (free_push around _))
  intro _
  apply Effect.Keeps.bind (bills_loop around parse cfg cfg.maxIterations 0 .new)
  intro output
  cases output with
  | some output => exact bills_of_free (.pure _)
  | none =>
      simp only [spent]
      split
      · exact bills_stateReport around cfg
      · exact .bind (bills_squeeze around cfg _) fun _ => bills_of_free (.pure _)

/-- The meter of a turn that was not cancelled. -/
theorem usage_runTurnMetered (world : World)
    (hresult : (runTurnMetered around parse cfg world).result ≠ .error .cancelled) :
    (runTurnMetered around parse cfg world).meter.usage =
      .ofDraws (turnDraws (runTurnMetered around parse cfg world).trace) := by
  have hbills := bills_turnLoop around parse cfg ⟨world, .new, []⟩
  rw [runTurnMetered] at hresult ⊢
  generalize turnLoop around parse cfg ⟨world, .new, []⟩ = ended at hbills hresult ⊢
  obtain ⟨result, final⟩ := ended
  apply hbills result final rfl rfl
  rintro error rfl rfl
  exact hresult rfl

/-- The meters of two turns, one after the other: each sums the draws of its
turn, and together they are billed what the draws of both are. -/
theorem meters_sum_draws {first second : TurnConfig} {world : World}
    (hfirst : (runTurnMetered around parse first world).result ≠ .error .cancelled)
    (hsecond : (runTurnMetered around parse second
      (runTurnMetered around parse first world).world).result ≠ .error .cancelled) :
    let one := runTurnMetered around parse first world
    let two := runTurnMetered around parse second one.world
    let both := one.meter.usage.addTurn two.meter.usage
    one.meter.usage = .ofDraws (turnDraws one.trace) ∧
      two.meter.usage = .ofDraws (turnDraws two.trace) ∧
      both = .ofDraws (turnDraws one.trace ++ turnDraws two.trace) ∧
      (both.cachedTokens = none ↔
        ∀ call ∈ turnDraws one.trace ++ turnDraws two.trace,
          call.cachedTokens = none) ∧
      (both.cost = none ↔
        ∀ call ∈ turnDraws one.trace ++ turnDraws two.trace, call.cost = none) ∧
      (both.provider = none ↔
        ∀ call ∈ turnDraws one.trace ++ turnDraws two.trace,
          call.provider = none) := by
  intro one two both
  have hone := usage_runTurnMetered around parse first world hfirst
  have htwo := usage_runTurnMetered around parse second one.world hsecond
  have hboth : both = .ofDraws (turnDraws one.trace ++ turnDraws two.trace) := by
    rw [← TurnUsage.addTurn_ofDraws, ← hone, ← htwo]
  refine ⟨hone, htwo, hboth, ?_⟩
  rw [hboth]
  exact TurnUsage.ofDraws_eq_none _

end Iteration

/-! ### A squeezed turn and a short one -/

/-- An endpoint that sends what it is told to, with tools that always work. -/
def scripted : Surroundings (List (Except ProviderError ChatResponse)) where
  isCancelled world := (false, world)
  pushMessage _ world := (.ok (), world)
  compactIfUrgent world := (.ok none, world)
  assemble _ world := (.ok [], world)
  chatCompletions _ _ world :=
    match world with
    | [] => (some (.error (.network "closed")), [])
    | sent :: rest => (some sent, rest)
  sleep _ world := (some (), world)
  observeRequest _ _ world := world
  observeTokens _ world := world
  executeAll calls world :=
    (some ⟨calls.map fun _ => .ok "done", List.length_map _⟩, world)

def reported : Usage := ⟨100, 20, some 80, some (1 / 1000)⟩

/-- A server error, an empty reply and a call; the capped turn's report; then a
reply from another endpoint, without usage. -/
def billedScript : List (Except ProviderError ChatResponse) :=
  [.error (.serverError "500"),
   .ok ⟨[⟨none, none, none⟩], some reported, some "first"⟩,
   .ok ⟨[⟨none, some [⟨"1", "exec", "\x7b\x7d"⟩], none⟩], some reported, some "first"⟩,
   .ok ⟨[⟨some "so far", none, none⟩], some reported, some "first"⟩,
   .ok ⟨[⟨some "hello", none, none⟩], none, some "second"⟩]

def cappedTurn : TurnConfig := ⟨"", "go", [], 1, .finalAnswer, .accept⟩

theorem meters_sum_draws_billedScript :
    let one := runTurnMetered scripted (fun _ => none) cappedTurn billedScript
    let two := runTurnMetered scripted (fun _ => none) cappedTurn one.world
    let both := one.meter.usage.addTurn two.meter.usage
    one.meter.usage = .ofDraws (turnDraws one.trace) ∧
      two.meter.usage = .ofDraws (turnDraws two.trace) ∧
      both = .ofDraws (turnDraws one.trace ++ turnDraws two.trace) ∧
      (both.cachedTokens = none ↔
        ∀ call ∈ turnDraws one.trace ++ turnDraws two.trace,
          call.cachedTokens = none) ∧
      (both.cost = none ↔
        ∀ call ∈ turnDraws one.trace ++ turnDraws two.trace, call.cost = none) ∧
      (both.provider = none ↔
        ∀ call ∈ turnDraws one.trace ++ turnDraws two.trace,
          call.provider = none) :=
  meters_sum_draws scripted (fun _ => none) (by decide) (by decide)

end Draws

end Kitaebot.Agent
