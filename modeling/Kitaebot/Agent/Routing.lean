import Kitaebot.Agent.ExecutionRetry
import Kitaebot.Agent.SessionHistory

/-!
# Messages and the sessions of the flat engine

The actor runs each message in the session that it asks for and goes back to the one that
was active.  What the engine shows of its sessions, from memory or from the files, changes
at the session of the message alone.  The files keep up with it, unless a message asks for
the active session under another spelling: the engine never leaves the session then, and
nothing saves it.
-/

namespace Kitaebot.Agent

section Routes

variable {World : Type} {actor : Actor World} {envelope : InputEnvelope} {task : TaskKey}
  {tier : Option ProviderTier} {provider : RootProvider} {state : ActorState World}
  {target : String}

theorem routeMessage_stays
    (htarget : envelope.sessionHint.getD (actor.engine.activeSession state.world) =
      actor.engine.activeSession state.world) :
    routeMessage actor envelope task tier provider state =
      runMessage actor envelope task tier provider (actor.engine.activeSession state.world)
        false state := by
  rw [routeMessage]
  exact if_neg (not_not.mpr htarget)

theorem routeMessage_switches {world : World}
    (htarget : envelope.sessionHint.getD (actor.engine.activeSession state.world) = target)
    (hother : target ≠ actor.engine.activeSession state.world)
    (hswitch : actor.engine.switchSession target state.world = (.ok (), world)) :
    routeMessage actor envelope task tier provider state =
      runMessage actor envelope task tier provider (actor.engine.activeSession state.world)
        true { state with world } := by
  simp only [routeMessage, htarget]
  rw [if_pos hother, hswitch]

theorem routeMessage_fails {error : String} {world : World}
    (htarget : envelope.sessionHint.getD (actor.engine.activeSession state.world) = target)
    (hother : target ≠ actor.engine.activeSession state.world)
    (hswitch : actor.engine.switchSession target state.world = (.error error, world)) :
    routeMessage actor envelope task tier provider state =
      ⟨.error ("Failed to switch session: " ++ error), { state with world }, none⟩ := by
  simp only [routeMessage, htarget]
  rw [if_pos hother, hswitch]

end Routes

namespace Flat

open Context (FlatSession Directory CompactionEvent sanitizeName sessionFileName
  sanitizeName_idem)

/-! ### What the engine shows -/

/-- The messages of a session, under any of its spellings. -/
def view (engine : FlatSession) (name : String) : Except String (List Message) :=
  if sanitizeName name = engine.activeName then .ok engine.session
  else engine.directory.load (sessionFileName name)

/-- The files hold all that the engine shows. -/
def Durable (engine : FlatSession) : Prop :=
  ∀ name, engine.directory.load (sessionFileName name) = view engine name

theorem sessionFileName_inj {first second : String} :
    sessionFileName first = sessionFileName second ↔
      sanitizeName first = sanitizeName second := by
  rw [sessionFileName, sessionFileName, String.append_left_inj]

theorem sanitizeName_activeName (engine : FlatSession) :
    sanitizeName engine.activeName = engine.activeName :=
  engine.sanitized.sanitizeName_eq

theorem view_activeName (engine : FlatSession) :
    view engine engine.activeName = .ok engine.session :=
  if_pos (sanitizeName_activeName engine)

theorem view_sanitizeName (engine : FlatSession) (name : String) :
    view engine (sanitizeName name) = view engine name := by
  have hfile : sessionFileName (sanitizeName name) = sessionFileName name :=
    sessionFileName_inj.mpr (sanitizeName_idem name)
  rw [view, view, sanitizeName_idem, hfile]

/-- Only the active session can be missing from the files. -/
theorem durable_iff (engine : FlatSession) :
    Durable engine ↔
      engine.directory.load (sessionFileName engine.activeName) = .ok engine.session := by
  constructor
  · intro hdurable
    rw [hdurable, view_activeName]
  · intro hactive name
    rw [view]
    split
    · next hname =>
        have hfile : sessionFileName name = sessionFileName engine.activeName :=
          sessionFileName_inj.mpr (hname.trans (sanitizeName_activeName engine).symm)
        rw [hfile, hactive]
    · rfl

theorem load_save (engine : FlatSession) (name : String) :
    engine.save.directory.load (sessionFileName name) = view engine name := by
  rw [FlatSession.save, load_write, view]
  simp only [sessionFileName_inj, sanitizeName_activeName]

@[simp]
theorem view_save (engine : FlatSession) : view engine.save = view engine := by
  funext name
  rw [view]
  split
  · next hname => exact (if_pos hname).symm
  · exact load_save engine name

theorem durable_save (engine : FlatSession) : Durable engine.save := by
  intro name
  rw [load_save, view_save]

/-! ### Switching -/

section Switching

variable {engine : FlatSession} {name : String}

theorem switchSession_same (hsame : sanitizeName name = engine.activeName) :
    engine.switchSession name = (.ok (), engine) := by
  rw [FlatSession.switchSession, if_pos hsame]

theorem switchSession_error {error : String}
    (hother : sanitizeName name ≠ engine.activeName)
    (hview : view engine name = .error error) :
    engine.switchSession name = (.error error, engine.save) := by
  have hload : engine.save.directory.load (sessionFileName (sanitizeName name)) =
      .error error := by
    rw [load_save, view_sanitizeName, hview]
  rw [FlatSession.switchSession, if_neg hother, hload]

theorem switchSession_ok {session : List Message}
    (hother : sanitizeName name ≠ engine.activeName)
    (hview : view engine name = .ok session) :
    ∃ switched, engine.switchSession name = (.ok (), switched) ∧
      switched.session = session ∧ switched.activeName = sanitizeName name ∧
      switched.directory = engine.save.directory := by
  have hload : engine.save.directory.load (sessionFileName (sanitizeName name)) =
      .ok session := by
    rw [load_save, view_sanitizeName, hview]
  rw [FlatSession.switchSession, if_neg hother, hload]
  exact ⟨_, rfl, rfl, rfl, rfl⟩

/-- A switch shows nothing else than before. -/
@[simp]
theorem view_switchSession (engine : FlatSession) (name : String) :
    view (engine.switchSession name).2 = view engine := by
  by_cases hsame : sanitizeName name = engine.activeName
  · rw [switchSession_same hsame]
  · cases hview : view engine name with
    | error error => rw [switchSession_error hsame hview, view_save]
    | ok session =>
        obtain ⟨switched, hswitch, hsession, hactive, hdirectory⟩ :=
          switchSession_ok hsame hview
        rw [hswitch]
        funext other
        rw [view, hactive, hsession, hdirectory, load_save]
        split
        · next hother =>
            rw [← hview, ← view_sanitizeName engine name, ← hother, view_sanitizeName]
        · rfl

theorem durable_switchSession (hother : sanitizeName name ≠ engine.activeName) :
    Durable (engine.switchSession name).2 := by
  cases hview : view engine name with
  | error error =>
      rw [switchSession_error hother hview]
      exact durable_save engine
  | ok session =>
      obtain ⟨switched, hswitch, -, -, hdirectory⟩ := switchSession_ok hother hview
      intro other
      rw [view_switchSession, hswitch, hdirectory, load_save]

theorem activeName_switchSession {session : List Message}
    (hview : view engine name = .ok session) :
    (engine.switchSession name).2.activeName = sanitizeName name := by
  by_cases hsame : sanitizeName name = engine.activeName
  · rw [switchSession_same hsame, hsame]
  · obtain ⟨switched, hswitch, -, hactive, -⟩ := switchSession_ok hsame hview
    rw [hswitch, hactive]

end Switching

/-! ### Messages -/

section Routing

variable {Rest : Type} (parse : String → Option Json.Value) (hasRetryProvider : Bool)
  (loadError : FlatSession × Rest → Option String)
  (prepare : RootProvider → FlatSession × Rest → Others Rest × TurnConfig)

def flatEngine : Engine (FlatSession × Rest) where
  activeSession world := world.1.activeName
  switchSession name world :=
    ((world.1.switchSession name).1, ((world.1.switchSession name).2, world.2))
  save world := (.ok (), (world.1.save, world.2))

/-- The turn of a message in the active session. -/
def messageTurn (provider : RootProvider) (tagged : String) (world : FlatSession × Rest) :
    Except Error TurnOutput × (FlatSession × Rest) :=
  let (others, cfg) := prepare provider world
  let turn := runTurn parse world others { cfg with userMessage := tagged }
  (turn.result, (turn.world.1.1, turn.world.2))

def flatActor : Actor (FlatSession × Rest) where
  hasRetryProvider
  engine := flatEngine
  turn := messageTurn parse prepare
  loadError

/-- What a message asks for: its hint, or else the active session. -/
def targetOf (envelope : InputEnvelope) (engine : FlatSession) : String :=
  envelope.sessionHint.getD engine.activeName

def taggedText (envelope : InputEnvelope) : String :=
  "[" ++ envelope.source.display ++ "]: " ++ envelope.text

/-- The message asks for the active session, but not by the name it is stored under. -/
def Misspelt (envelope : InputEnvelope) (engine : FlatSession) : Prop :=
  targetOf envelope engine ≠ engine.activeName ∧
    sanitizeName (targetOf envelope engine) = engine.activeName

instance (envelope : InputEnvelope) (engine : FlatSession) :
    Decidable (Misspelt envelope engine) := by
  unfold Misspelt
  infer_instance

/-- A turn starts from what is shown of its session, and what it leaves there is all that
is shown differently afterwards. -/
def TurnIn (target tagged : String) (ran : RanTurn) (before after : FlatSession × Rest) :
    Prop :=
  ∃ started ended : FlatSession × Rest,
    started.1.activeName = sanitizeName target ∧
      view before.1 target = .ok started.1.session ∧
      started.2 = before.2 ∧
      messageTurn parse prepare ran.provider tagged started = (ran.outcome, ended) ∧
      after.2 = ended.2 ∧
      view after.1 = fun name =>
        if sanitizeName name = sanitizeName target then .ok ended.1.session
        else view before.1 name

/-- Where the turn of a message starts, and whether the actor switched to get there. -/
structure Started (target : String) (before : FlatSession × Rest) (switched : Bool)
    (started : FlatSession × Rest) : Prop where
  rest : started.2 = before.2
  view_eq : view started.1 = view before.1
  activeName : started.1.activeName = sanitizeName target
  stayed : switched = false ↔ target = before.1.activeName
  same : sanitizeName target = before.1.activeName → started = before

theorem samePlace_messageTurn (provider : RootProvider) (tagged : String)
    (world : FlatSession × Rest) :
    SamePlace world.1 (messageTurn parse prepare provider tagged world).2.1 :=
  (runTurn parse world (prepare provider world).1
    { (prepare provider world).2 with userMessage := tagged }).world.1.2

theorem view_of_samePlace {base engine : FlatSession} (hplace : SamePlace base engine)
    (name : String) :
    view engine name =
      if sanitizeName name = base.activeName then .ok engine.session
      else view base name := by
  by_cases hname : sanitizeName name = base.activeName
  · rw [if_pos hname, view, hplace.activeName, if_pos hname]
  · rw [if_neg hname, view, view, hplace.activeName, hplace.directory, if_neg hname,
      if_neg hname]

section Finishing

variable {hasRetryProvider loadError}

theorem finishMessage_switched (original : String) (world : FlatSession × Rest) :
    finishMessage (flatActor parse hasRetryProvider loadError prepare) original true world =
      ((world.1.switchSession original).2, world.2) := by
  rw [finishMessage, if_pos rfl]
  rfl

theorem finishMessage_stayed (original : String) (world : FlatSession × Rest) :
    finishMessage (flatActor parse hasRetryProvider loadError prepare) original false world =
      (world.1.save, world.2) := by
  rw [finishMessage, if_neg Bool.false_ne_true]
  rfl

/-- Ending a message shows nothing else than its turn did. -/
theorem view_finishMessage (original : String) (switched : Bool)
    (world : FlatSession × Rest) :
    view (finishMessage (flatActor parse hasRetryProvider loadError prepare) original
      switched world).1 = view world.1 := by
  cases switched with
  | true => rw [finishMessage_switched, view_switchSession]
  | false => rw [finishMessage_stayed, view_save]

theorem activeName_finishMessage {original : String} {switched : Bool}
    {world : FlatSession × Rest} {session : List Message}
    (horiginal : sanitizeName original = original)
    (hstay : switched = false → world.1.activeName = original)
    (hview : view world.1 original = .ok session) :
    (finishMessage (flatActor parse hasRetryProvider loadError prepare) original switched
      world).1.activeName = original := by
  cases switched with
  | true => rw [finishMessage_switched, activeName_switchSession hview, horiginal]
  | false =>
      rw [finishMessage_stayed]
      exact hstay rfl

theorem rest_finishMessage (original : String) (switched : Bool)
    (world : FlatSession × Rest) :
    (finishMessage (flatActor parse hasRetryProvider loadError prepare) original switched
      world).2 = world.2 := by
  cases switched with
  | true => rw [finishMessage_switched]
  | false => rw [finishMessage_stayed]

theorem world_runMessage (envelope : InputEnvelope) (task : TaskKey)
    (tier : Option ProviderTier) (provider : RootProvider) (original : String)
    (switched : Bool) (state : ActorState (FlatSession × Rest)) :
    (runMessage (flatActor parse hasRetryProvider loadError prepare) envelope task tier
      provider original switched state).state.world =
        finishMessage (flatActor parse hasRetryProvider loadError prepare) original switched
          (messageTurn parse prepare provider (taggedText envelope) state.world).2 := rfl

theorem ran_runMessage (envelope : InputEnvelope) (task : TaskKey)
    (tier : Option ProviderTier) (provider : RootProvider) (original : String)
    (switched : Bool) (state : ActorState (FlatSession × Rest)) (ran : RanTurn)
    (hran : ran ∈ (runMessage (flatActor parse hasRetryProvider loadError prepare) envelope
      task tier provider original switched state).ran) :
    messageTurn parse prepare ran.provider (taggedText envelope) state.world =
      (ran.outcome,
        (messageTurn parse prepare provider (taggedText envelope) state.world).2) := by
  obtain rfl := Option.some.inj hran
  rfl

/-- The turn of a message in the session it was routed to, and the way back. -/
theorem runMessage_routes {envelope : InputEnvelope} (task : TaskKey)
    (tier : Option ProviderTier) (provider : RootProvider) {target : String}
    {switched : Bool} {before : FlatSession × Rest}
    {state : ActorState (FlatSession × Rest)}
    (hstarted : Started target before switched state.world) :
    let handled := runMessage (flatActor parse hasRetryProvider loadError prepare) envelope
      task tier provider before.1.activeName switched state
    handled.state.world.1.activeName = before.1.activeName ∧
      ∀ ran ∈ handled.ran, TurnIn parse prepare target (taggedText envelope) ran before
        handled.state.world := by
  intro handled
  set ended := (messageTurn parse prepare provider (taggedText envelope) state.world).2
    with hended
  have hplace : SamePlace state.world.1 ended.1 :=
    samePlace_messageTurn parse prepare provider (taggedText envelope) state.world
  have hshown : view ended.1 = fun name =>
      if sanitizeName name = sanitizeName target then .ok ended.1.session
      else view before.1 name := by
    funext name
    rw [view_of_samePlace hplace, hstarted.activeName, hstarted.view_eq]
  have hworld : handled.state.world =
      finishMessage (flatActor parse hasRetryProvider loadError prepare)
        before.1.activeName switched ended :=
    world_runMessage parse prepare envelope task tier provider before.1.activeName switched
      state
  constructor
  · have horiginal : ∃ session, view ended.1 before.1.activeName = .ok session := by
      simp only [hshown]
      split
      · exact ⟨_, rfl⟩
      · exact ⟨_, view_activeName before.1⟩
    obtain ⟨session, horiginal⟩ := horiginal
    rw [hworld]
    refine activeName_finishMessage parse prepare (sanitizeName_activeName before.1)
      (fun hswitched => ?_) horiginal
    rw [hplace.activeName, hstarted.activeName, hstarted.stayed.mp hswitched,
      sanitizeName_activeName]
  · intro ran hran
    have hsession : view before.1 target = .ok state.world.1.session := by
      rw [← hstarted.view_eq, view, if_pos hstarted.activeName.symm]
    refine ⟨state.world, ended, hstarted.activeName, hsession, hstarted.rest, ?_, ?_, ?_⟩
    · exact ran_runMessage parse prepare envelope task tier provider before.1.activeName
        switched state ran hran
    · rw [hworld, rest_finishMessage]
    · rw [hworld, view_finishMessage, hshown]

/-- The message ends without a turn, with nothing changed but perhaps saved. -/
def Refused (target : String) (before : FlatSession × Rest)
    (handled : Handled (FlatSession × Rest)) : Prop :=
  handled.ran = none ∧ (∃ problem, handled.reply = .error problem) ∧
    (handled.state.world = before ∨
      sanitizeName target ≠ before.1.activeName ∧
        handled.state.world = (before.1.save, before.2))

theorem routeMessage_cases (envelope : InputEnvelope) (task : TaskKey)
    (tier : Option ProviderTier) (provider : RootProvider)
    (state : ActorState (FlatSession × Rest)) :
    let handled := routeMessage (flatActor parse hasRetryProvider loadError prepare)
      envelope task tier provider state
    let target := targetOf envelope state.world.1
    Refused target state.world handled ∨
      ∃ switched, ∃ started : ActorState (FlatSession × Rest),
        Started target state.world switched started.world ∧
        handled = runMessage (flatActor parse hasRetryProvider loadError prepare) envelope
          task tier provider state.world.1.activeName switched started := by
  intro handled target
  by_cases hsame : target = state.world.1.activeName
  · refine .inr ⟨false, state, ⟨rfl, rfl, ?_, iff_of_true rfl hsame, fun _ => rfl⟩,
      routeMessage_stays hsame⟩
    rw [hsame, sanitizeName_activeName]
  · have hswitch : (flatActor parse hasRetryProvider loadError prepare).engine.switchSession
        target state.world = ((state.world.1.switchSession target).1,
          ((state.world.1.switchSession target).2, state.world.2)) := rfl
    have hstays : true = false ↔ target = state.world.1.activeName :=
      iff_of_false Bool.noConfusion hsame
    by_cases hother : sanitizeName target = state.world.1.activeName
    · rw [switchSession_same hother] at hswitch
      exact .inr ⟨true, state, ⟨rfl, rfl, hother.symm, hstays, fun _ => rfl⟩,
        routeMessage_switches rfl hsame hswitch⟩
    · cases hview : view state.world.1 target with
      | error error =>
          rw [switchSession_error hother hview] at hswitch
          have hhandled : handled = _ := routeMessage_fails rfl hsame hswitch
          rw [hhandled]
          exact .inl ⟨rfl, ⟨_, rfl⟩, .inr ⟨hother, rfl⟩⟩
      | ok session =>
          obtain ⟨switched, hswitched, -, hactive, -⟩ := switchSession_ok hother hview
          have hshown := view_switchSession state.world.1 target
          rw [hswitched] at hswitch hshown
          exact .inr ⟨true, { state with world := (switched, state.world.2) },
            ⟨rfl, hshown, hactive, hstays, fun heq => absurd heq hother⟩,
            routeMessage_switches rfl hsame hswitch⟩

theorem handleMessage_cases (envelope : InputEnvelope)
    (state : ActorState (FlatSession × Rest)) :
    let handled :=
      handleMessage (flatActor parse hasRetryProvider loadError prepare) envelope state
    let target := targetOf envelope state.world.1
    Refused target state.world handled ∨
      ∃ task tier provider switched, ∃ started : ActorState (FlatSession × Rest),
        Started target state.world switched started.world ∧
        handled = runMessage (flatActor parse hasRetryProvider loadError prepare) envelope
          task tier provider state.world.1.activeName switched started := by
  intro handled target
  simp only [handled, handleMessage]
  cases escalationTier (flatActor parse hasRetryProvider loadError prepare) envelope.role
      (TaskKey.forSource envelope.source) state with
  | error problem => exact .inl ⟨rfl, ⟨problem, rfl⟩, .inl rfl⟩
  | ok tier =>
      cases hprovider : providerFor (flatActor parse hasRetryProvider loadError prepare)
          envelope.role tier with
      | error problem =>
          simp only [hprovider]
          exact .inl ⟨rfl, ⟨problem, rfl⟩, .inl rfl⟩
      | ok provider =>
          simp only [hprovider]
          rcases routeMessage_cases parse prepare envelope
              (TaskKey.forSource envelope.source) tier provider state with
            hrefused | ⟨switched, started, hstarted, hhandled⟩
          · exact .inl hrefused
          · exact .inr ⟨_, _, _, _, _, hstarted, hhandled⟩

theorem activeName_handleMessage (envelope : InputEnvelope)
    (state : ActorState (FlatSession × Rest)) :
    (handleMessage (flatActor parse hasRetryProvider loadError prepare) envelope
      state).state.world.1.activeName = state.world.1.activeName := by
  rcases handleMessage_cases parse prepare envelope state with
    ⟨-, -, hworld⟩ | ⟨task, tier, provider, switched, started, hstarted, hhandled⟩
  · rcases hworld with hworld | ⟨-, hworld⟩
    · rw [hworld]
    · rw [hworld]
      rfl
  · rw [hhandled]
    exact (runMessage_routes parse prepare task tier provider hstarted).1

end Finishing

section Isolation

/-- One message after another. -/
def message (hasRetryProvider : Bool) (loadError : FlatSession × Rest → Option String)
    (state : ActorState (FlatSession × Rest)) (envelope : InputEnvelope) :
    ActorState (FlatSession × Rest) :=
  (handleMessage (flatActor parse hasRetryProvider loadError prepare) envelope state).state

variable {hasRetryProvider loadError}

theorem targetOf_congr {first second : FlatSession}
    (hactive : first.activeName = second.activeName) (envelope : InputEnvelope) :
    targetOf envelope first = targetOf envelope second := by
  rw [targetOf, targetOf, hactive]

theorem misspelt_congr {first second : FlatSession}
    (hactive : first.activeName = second.activeName) (envelope : InputEnvelope) :
    Misspelt envelope first ↔ Misspelt envelope second := by
  rw [Misspelt, Misspelt, targetOf_congr hactive, hactive]

theorem activeName_message (state : ActorState (FlatSession × Rest))
    (envelope : InputEnvelope) :
    (message parse prepare hasRetryProvider loadError state envelope).world.1.activeName =
      state.world.1.activeName :=
  activeName_handleMessage parse prepare envelope state

theorem view_message_other (state : ActorState (FlatSession × Rest))
    {envelope : InputEnvelope} {name : String}
    (hother : sanitizeName (targetOf envelope state.world.1) ≠ sanitizeName name) :
    view (message parse prepare hasRetryProvider loadError state envelope).world.1 name =
      view state.world.1 name := by
  rw [message]
  rcases handleMessage_cases parse prepare envelope state with
    ⟨-, -, hworld⟩ | ⟨task, tier, provider, switched, started, hstarted, hhandled⟩
  · rcases hworld with hworld | ⟨-, hworld⟩
    · rw [hworld]
    · rw [hworld, view_save]
  · have hplace := samePlace_messageTurn parse prepare provider (taggedText envelope)
      started.world
    rw [hhandled, world_runMessage, view_finishMessage, view_of_samePlace hplace,
      if_neg, hstarted.view_eq]
    rw [hstarted.activeName]
    exact Ne.symm hother

end Isolation

section Durability

variable {hasRetryProvider loadError}

/-- Going back saves the session of the turn, unless the engine never left. -/
theorem durable_back_iff {target : String} {before started : FlatSession × Rest}
    {ended : FlatSession} (hstarted : Started target before true started)
    (hplace : SamePlace started.1 ended) (hdurable : Durable before.1) :
    Durable (ended.switchSession before.1.activeName).2 ↔
      (sanitizeName target = before.1.activeName →
        (ended.switchSession before.1.activeName).2.session = before.1.session) := by
  by_cases hsame : sanitizeName target = before.1.activeName
  -- Both switches came to nothing, and neither saved.
  · have hactive : ended.activeName = before.1.activeName := by
      rw [hplace.activeName, hstarted.same hsame]
    have hfiles : ended.directory = before.1.directory := by
      rw [hplace.directory, hstarted.same hsame]
    have hback : sanitizeName before.1.activeName = ended.activeName := by
      rw [sanitizeName_activeName, hactive]
    rw [switchSession_same hback, durable_iff, hfiles, hactive,
      (durable_iff _).mp hdurable, Except.ok.injEq]
    exact ⟨fun heq _ => heq.symm, fun himp => (himp hsame).symm⟩
  · have hback : sanitizeName before.1.activeName ≠ ended.activeName := by
      rw [hplace.activeName, hstarted.activeName, sanitizeName_activeName]
      exact Ne.symm hsame
    exact iff_of_true (durable_switchSession hback) fun heq => absurd heq hsame

theorem durable_finishMessage_iff {envelope : InputEnvelope}
    {before started ended world : FlatSession × Rest} {switched : Bool}
    (hstarted : Started (targetOf envelope before.1) before switched started)
    (hplace : SamePlace started.1 ended.1) (hdurable : Durable before.1)
    (hended : world = finishMessage (flatActor parse hasRetryProvider loadError prepare)
      before.1.activeName switched ended) :
    Durable world.1 ↔
      (Misspelt envelope before.1 → world.1.session = before.1.session) := by
  cases switched with
  | false =>
      have hworld : world.1 = ended.1.save := by rw [hended, finishMessage_stayed]
      have htarget := hstarted.stayed.mp rfl
      rw [hworld]
      exact iff_of_true (durable_save ended.1) fun hmisspelt => absurd htarget hmisspelt.1
  | true =>
      have hworld : world.1 = (ended.1.switchSession before.1.activeName).2 := by
        rw [hended, finishMessage_switched]
      have hother : targetOf envelope before.1 ≠ before.1.activeName :=
        fun heq => Bool.noConfusion (hstarted.stayed.mpr heq)
      rw [hworld, Misspelt, and_iff_right hother]
      exact durable_back_iff hstarted hplace hdurable

/-- What a message leaves is in the files, unless it asked for the active session by
another spelling and its turn changed it. -/
theorem durable_handle_iff (envelope : InputEnvelope)
    (state : ActorState (FlatSession × Rest)) (hdurable : Durable state.world.1) :
    let handled :=
      handleMessage (flatActor parse hasRetryProvider loadError prepare) envelope state
    Durable handled.state.world.1 ↔
      (Misspelt envelope state.world.1 →
        handled.state.world.1.session = state.world.1.session) := by
  intro handled
  rcases handleMessage_cases parse prepare envelope state with
    ⟨-, -, hworld⟩ | ⟨task, tier, provider, switched, started, hstarted, hhandled⟩
  · rcases hworld with hworld | ⟨-, hworld⟩
    · rw [hworld]
      exact iff_of_true hdurable fun _ => rfl
    · rw [hworld]
      exact iff_of_true (durable_save state.world.1) fun _ => rfl
  · have hworld : handled.state.world =
        finishMessage (flatActor parse hasRetryProvider loadError prepare)
          state.world.1.activeName switched
          (messageTurn parse prepare provider (taggedText envelope) started.world).2 := by
      rw [show handled = _ from hhandled, world_runMessage]
    exact durable_finishMessage_iff parse prepare hstarted
      (samePlace_messageTurn parse prepare provider (taggedText envelope) started.world)
      hdurable hworld

/-- While no message asks for the active session by another spelling, a stop after any of
them loses nothing. -/
theorem messages_durable (envelopes : List InputEnvelope)
    (state : ActorState (FlatSession × Rest)) (hdurable : Durable state.world.1)
    (hspelt : ∀ envelope ∈ envelopes, ¬ Misspelt envelope state.world.1) :
    let after := Run.run (message parse prepare hasRetryProvider loadError) state envelopes
    after.world.1.activeName = state.world.1.activeName ∧ Durable after.world.1 := by
  intro after
  have hstep : ∀ (later : ActorState (FlatSession × Rest)) (envelope : InputEnvelope),
      later.world.1.activeName = state.world.1.activeName ∧ Durable later.world.1 →
      ¬ Misspelt envelope state.world.1 →
      (message parse prepare hasRetryProvider loadError later envelope).world.1.activeName =
          state.world.1.activeName ∧
        Durable (message parse prepare hasRetryProvider loadError later
          envelope).world.1 := by
    rintro later envelope ⟨hactive, hlater⟩ hspelt
    constructor
    · rw [activeName_message, hactive]
    · rw [← misspelt_congr hactive envelope] at hspelt
      refine (durable_handle_iff parse prepare envelope later hlater).mpr ?_
      exact fun hmisspelt => absurd hmisspelt hspelt
  exact Run.invariant_of_meets hstep ⟨rfl, hdurable⟩ (Run.meets_iff_forall.mpr hspelt)

end Durability

/-! ### A duty of the active repository -/

/-- The engine after a switch to the session of a repository. -/
def repositoryEngine : FlatSession :=
  ((fresh ⟨1000, 80, 100⟩).switchSession "owner/repo").2

theorem durable_repositoryEngine : Durable repositoryEngine := by
  have hother : sanitizeName "owner/repo" ≠ (fresh ⟨1000, 80, 100⟩).activeName := by decide
  rw [repositoryEngine]
  exact durable_switchSession hother

def onRepository : ActorState (FlatSession × List (Except ProviderError ChatResponse)) where
  world := (repositoryEngine, callThenText)
  escalations := .empty

def greeting : InputEnvelope := ⟨.socket, "hello", some "general", .default⟩

def repositoryDuty : InputEnvelope := ⟨.duty "tests", "run", some "owner/repo", .default⟩

/-- An actor whose endpoint calls one tool and then answers twice. -/
def scriptedMessage : ActorState (FlatSession × List (Except ProviderError ChatResponse)) →
    InputEnvelope → ActorState (FlatSession × List (Except ProviderError ChatResponse)) :=
  message (fun _ => none) (fun _ _ => (scriptedOthers, twoIterations)) false fun _ => none

end Routing

end Flat

end Kitaebot.Agent
