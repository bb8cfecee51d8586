import Kitaebot.Core.Run
import Kitaebot.Memory.Slices

/-!
# Distillation over a store

Sessions are written to the store while passes fold them into memory.  The watermarks
are kept in a document; where there is none, a pass starts from the current tips.
Whatever was said from then on is folded once, in order, or still ahead of its
watermark, and no session waits for longer than it takes to fold every other one once.
-/

namespace Kitaebot.Memory

open Context (clampSpan tokensOf)
open Lcm (Db EngineError Enrolled Grows held i64Max)
open Watermarks (Drained portion)

/-- The reads that fail. -/
structure Faults where
  latestPositions : Option EngineError
  pendingDistillTokens : SortedMap String ℕ → Option EngineError
  transcriptSince : String → ℕ → ℕ → Option EngineError

def Faults.none : Faults := ⟨Option.none, fun _ => Option.none, fun _ _ _ => Option.none⟩

def faulty {Value : Type} (fault : Option EngineError) (read : Except EngineError Value) :
    Except EngineError Value :=
  match fault with
  | .some error => .error error
  | .none => read

/-- The reads of the LCM engine. -/
def lcmEngine (db : Db) (faults : Faults) : Engine where
  latestPositions := faulty faults.latestPositions (.ok (Lcm.latestPositionsSync db))
  pendingDistillTokens since := faulty (faults.pendingDistillTokens since)
    (.ok (Lcm.pendingDistillTokensSync db since))
  transcriptSince session after maxTokens :=
    faulty (faults.transcriptSince session after maxTokens)
      (Lcm.transcriptSince db session after maxTokens)

theorem ok_of_faulty {Value : Type} {fault : Option EngineError}
    {read : Except EngineError Value} {value : Value}
    (hread : faulty fault read = .ok value) : read = .ok value := by
  cases fault with
  | none => exact hread
  | some error => cases hread

theorem serves_lcm {db : Db} (hdb : Enrolled db) (hsize : db.messages.length ≤ i64Max)
    (faults : Faults) : Serves (lcmEngine db faults) (held db) where
  positions tips htips name := by
    rw [← Except.ok.inj (ok_of_faulty htips)]
    exact Lcm.find?_latestPositions hdb name
  pending since pending hpending name := by
    rw [← Except.ok.inj (ok_of_faulty hpending)]
    exact Lcm.find?_pendingDistillTokens hdb hsize since name
  transcript name hname after maxTokens messages hmessages := by
    have hread := ok_of_faulty hmessages
    cases hlisted : Lcm.listed db name with
    | none =>
        rw [held, hlisted] at hname
        exact absurd rfl hname
    | some conversation =>
        rw [Lcm.transcriptSince_held hdb hsize hlisted] at hread
        exact (Except.ok.inj hread).symm

/-! ### Passes over the store -/

/-- What a pass meets: which reads fail, how its turns end, which saves land. -/
structure Attempt where
  gate : Gate
  faults : Faults
  fold : Turn
  retry : Turn
  savesPrimed : Bool
  saves : Bool

/-- The store, the document and the memory files; also what was there when the
document was primed, and what the saved passes folded. -/
structure World where
  db : Db
  doc : Option DistillState
  workspace : Workspace
  grandfathered : String → List Message
  folded : List (String × List Message)
  passes : ℕ

inductive Event where
  | store (event : Lcm.Event)
  | distill (attempt : Attempt)

/-- The stored state, or one at the current tips. -/
def Distiller.loadState (engine : Engine) :
    Option DistillState → Except EngineError DistillState
  | some state => .ok state
  | none =>
      match engine.latestPositions with
      | .error error => .error error
      | .ok tips => .ok ⟨none, tips⟩

namespace World

variable (world : World)

/-- Save a state that was not loaded. -/
def prime (state : DistillState) (saved : Bool) : World :=
  match world.doc with
  | some _ => world
  | none =>
      { world with
        doc := if saved then some state else none
        grandfathered := held world.db }

def settle (pass : Pass) (spans : List (String × List Message)) (saved : Bool) : World :=
  match pass.result with
  | .ok (some _) =>
      if saved then
        { world with
          doc := some pass.state
          workspace := pass.workspace
          folded := world.folded ++ spans
          passes := world.passes + 1 }
      else { world with workspace := pass.workspace }
  | _ => { world with workspace := pass.workspace }

def distillPass (distiller : Distiller) (attempt : Attempt) : World :=
  let engine := lcmEngine world.db attempt.faults
  match Distiller.loadState engine world.doc with
  | .error _ => world
  | .ok state =>
      (world.prime state attempt.savesPrimed).settle
        (run engine distiller attempt.fold attempt.retry world.workspace state attempt.gate)
        (spansOf engine distiller state attempt.gate) attempt.saves

def start (workspace : Workspace) : World :=
  ⟨Db.empty, none, workspace, fun _ => [], [], 0⟩

end World

def step (sha256 : List UInt8 → List UInt8) (distiller : Distiller) (world : World) :
    Event → World
  | .store event => { world with db := Lcm.step sha256 world.db event.sanitized }
  | .distill attempt => world.distillPass distiller attempt

def after (sha256 : List UInt8 → List UInt8) (distiller : Distiller) (workspace : Workspace)
    (events : List Event) : World :=
  Run.run (step sha256 distiller) (.start workspace) events

/-! ### What a pass does -/

/-- What happens to the document in a pass. -/
inductive Effect (distiller : Distiller) (world later : World) : Prop where
  | idle (db : later.db = world.db) (doc : later.doc = world.doc)
      (folded : later.folded = world.folded) (passes : later.passes = world.passes)
      (grandfathered : world.doc ≠ none → later.grandfathered = world.grandfathered)
  | primed (state : DistillState) (db : later.db = world.db) (missing : world.doc = none)
      (doc : later.doc = some state) (folded : later.folded = world.folded)
      (passes : later.passes = world.passes)
      (grandfathered : later.grandfathered = held world.db)
      (marks : ∀ name, state.mark name = (held world.db name).length)
  | folds (before after : DistillState) (pending : SortedMap String ℕ)
      (spans : List (String × List Message)) (db : later.db = world.db)
      (loaded : world.doc = some before) (doc : later.doc = some after)
      (folded : later.folded = world.folded ++ spans)
      (passes : later.passes = world.passes + 1)
      (grandfathered : later.grandfathered = world.grandfathered)
      (effect : Folded (held world.db) distiller.sliceTokens before after pending spans)

theorem settle_no_reply (world : World) {pass : Pass}
    (hreply : ∀ reply, pass.result ≠ .ok (some reply)) (spans : List (String × List Message))
    (saved : Bool) :
    world.settle pass spans saved = { world with workspace := pass.workspace } := by
  rw [World.settle]
  split
  · next reply hresult => exact absurd hresult (hreply reply)
  · rfl

/-- At the tips nothing is pending, and the pass folds nothing. -/
theorem no_fold_at_tips {held : String → List Message} {sliceTokens : ℕ} {state later : DistillState} {pending : SortedMap String ℕ}
    {spans : List (String × List Message)}
    (hmarks : ∀ name, state.mark name = (held name).length) :
    ¬ Folded held sliceTokens state later pending spans := by
  intro hfolded
  obtain ⟨span, hspan⟩ := List.exists_mem_of_ne_nil spans hfolded.ne_nil
  have hprefix := hfolded.span_prefix hspan
  rw [backlog, hmarks, List.drop_length] at hprefix
  exact hfolded.span_ne_nil hspan (List.prefix_nil.1 hprefix)

theorem effect_loaded {world : World} {state : DistillState} (hdoc : world.doc = some state)
    {engine : Engine} (hserves : Serves engine (held world.db)) (distiller : Distiller)
    (fold retry : Turn) (gate : Gate) (saved : Bool) :
    Effect distiller world (world.settle
      (run engine distiller fold retry world.workspace state gate)
      (spansOf engine distiller state gate) saved) := by
  rcases run_cases hserves fold retry world.workspace with
    ⟨hreply, _⟩ | ⟨reply, pending, hreply, hfolded, _⟩
  · rw [settle_no_reply world hreply]
    exact .idle rfl rfl rfl rfl fun _ => rfl
  · simp only [World.settle, hreply]
    cases saved with
    | false => exact .idle rfl rfl rfl rfl fun _ => rfl
    | true => exact .folds state _ pending _ rfl hdoc rfl rfl rfl rfl hfolded

theorem effect_distillPass {world : World} (hdb : Enrolled world.db)
    (hsize : world.db.messages.length ≤ i64Max) (distiller : Distiller) (attempt : Attempt) :
    Effect distiller world (world.distillPass distiller attempt) := by
  have hserves := serves_lcm hdb hsize attempt.faults
  rw [World.distillPass]
  cases hdoc : world.doc with
  | some state =>
      simp only [Distiller.loadState, World.prime, hdoc]
      exact effect_loaded hdoc hserves distiller _ _ _ _
  | none =>
      simp only [Distiller.loadState, World.prime, hdoc]
      cases hread : (lcmEngine world.db attempt.faults).latestPositions with
      | error error => exact .idle rfl rfl rfl rfl fun _ => rfl
      | ok tips =>
          dsimp only
          have hmarks : ∀ name, (⟨none, tips⟩ : DistillState).mark name =
              (held world.db name).length := hserves.positions tips hread
          rcases run_cases hserves attempt.fold attempt.retry world.workspace with
            ⟨hreply, _⟩ | ⟨reply, pending, _, hfolded, _⟩
          · rw [settle_no_reply _ hreply]
            cases attempt.savesPrimed with
            | false => exact .idle rfl hdoc.symm rfl rfl fun hsome => absurd hdoc hsome
            | true => exact .primed ⟨none, tips⟩ rfl hdoc rfl rfl rfl rfl hmarks
          · exact absurd hfolded (no_fold_at_tips hmarks)

/-! ### Folded once -/

/-- What was there at priming and what was folded since are what each session held up
to its watermark. -/
structure World.Sound (world : World) : Prop where
  enrolled : Enrolled world.db
  unprimed : world.doc = none → world.folded = []
  grandfathered : ∀ state, world.doc = some state → ∀ name,
    world.grandfathered name <+: held world.db name
  drained : ∀ state, world.doc = some state →
    Drained (held world.db) (fun name => (world.grandfathered name).length) state.mark
      world.folded

theorem sound_start (workspace : Workspace) : (World.start workspace).Sound where
  enrolled := Lcm.enrolled_empty
  unprimed _ := rfl
  grandfathered state hdoc := by cases hdoc
  drained state hdoc := by cases hdoc

theorem Effect.sound {distiller : Distiller} {world later : World} (hworld : world.Sound)
    (heffect : Effect distiller world later) : later.Sound := by
  cases heffect with
  | idle db doc folded passes grandfathered =>
      constructor
      · rw [db]
        exact hworld.enrolled
      · rw [doc, folded]
        exact hworld.unprimed
      · intro state hstate
        rw [doc] at hstate
        rw [db, grandfathered (fun hnone => by rw [hstate] at hnone; cases hnone)]
        exact hworld.grandfathered state hstate
      · intro state hstate
        rw [doc] at hstate
        rw [db, folded, grandfathered (fun hnone => by rw [hstate] at hnone; cases hnone)]
        exact hworld.drained state hstate
  | primed state db missing doc folded passes grandfathered marks =>
      constructor
      · rw [db]
        exact hworld.enrolled
      · intro hnone
        rw [doc] at hnone
        cases hnone
      · intro _ _ name
        rw [db, grandfathered]
      · intro other hother
        rw [doc] at hother
        obtain rfl := Option.some.inj hother
        have hmark : state.mark = fun name => (held world.db name).length := funext marks
        rw [db, folded, hworld.unprimed missing, grandfathered, hmark]
        exact Drained.start fun name => Nat.le_refl _
  | folds before after pending spans db loaded doc folded passes grandfathered effect =>
      constructor
      · rw [db]
        exact hworld.enrolled
      · intro hnone
        rw [doc] at hnone
        cases hnone
      · intro _ _ name
        rw [db, grandfathered]
        exact hworld.grandfathered before loaded name
      · intro other hother
        rw [doc] at hother
        obtain rfl := Option.some.inj hother
        have hmark : after.mark = Watermarks.advance before.mark spans := funext effect.marks
        rw [db, folded, grandfathered, hmark]
        exact (hworld.drained before loaded).fold effect.nodup_names
          fun span hspan => effect.span_prefix hspan

section Runs

variable {sha256 : List UInt8 → List UInt8} {distiller : Distiller} {workspace : Workspace}

theorem grows_store (sha256 : List UInt8 → List UInt8) {world : World} (hworld : world.Sound)
    (event : Lcm.Event) :
    Grows world.db (Lcm.step sha256 world.db event.sanitized) :=
  Lcm.grows_step sha256 hworld.enrolled.consistent event.sanitized

theorem sound_step {world : World} (hworld : world.Sound)
    (hsize : world.db.messages.length ≤ i64Max) (event : Event) :
    (step sha256 distiller world event).Sound := by
  cases event with
  | store event =>
      have hgrows := grows_store sha256 hworld event
      constructor
      · exact Lcm.enrolled_step sha256 hworld.enrolled event
      · exact hworld.unprimed
      · exact fun state hstate name =>
          (hworld.grandfathered state hstate name).trans (hgrows.held name)
      · exact fun state hstate => (hworld.drained state hstate).grow fun name =>
          hgrows.held name
  | distill attempt => exact (effect_distillPass hworld.enrolled hsize distiller attempt).sound hworld

/-- A pass only reads the store. -/
theorem db_distillPass (distiller : Distiller) (world : World) (attempt : Attempt) :
    (world.distillPass distiller attempt).db = world.db := by
  have hprime : ∀ state saved, (world.prime state saved).db = world.db := by
    intro state saved
    rw [World.prime]
    split <;> rfl
  have hsettle : ∀ (world : World) pass spans saved,
      (world.settle pass spans saved).db = world.db := by
    intro world pass spans saved
    rw [World.settle]
    split
    · split <;> rfl
    · rfl
  simp only [World.distillPass]
  split
  · rfl
  · rw [hsettle, hprime]

theorem consistent_step {world : World} (hdb : world.db.Consistent) (event : Event) :
    (step sha256 distiller world event).db.Consistent := by
  cases event with
  | store event => exact Lcm.consistent_step sha256 world.db event.sanitized hdb
  | distill attempt =>
      change (world.distillPass distiller attempt).db.Consistent
      rw [db_distillPass]
      exact hdb

/-- The names under which something is held. -/
def names (db : Db) : Finset String :=
  (db.conversations.map fun conversation =>
    Context.desanitizeName conversation.name).toFinset

theorem mem_names {db : Db} {name : String} (hheld : held db name ≠ []) : name ∈ names db := by
  rw [held] at hheld
  cases hlisted : Lcm.listed db name with
  | none =>
      rw [hlisted] at hheld
      exact absurd rfl hheld
  | some conversation =>
      have hname : Context.desanitizeName conversation.name = name := by
        simpa using List.find?_some hlisted
      rw [names, List.mem_toFinset]
      exact List.mem_map.2 ⟨conversation, List.mem_of_find?_eq_some hlisted, hname⟩

theorem card_names_le (db : Db) : (names db).card ≤ db.conversations.length := by
  rw [names, ← List.length_map]
  exact List.toFinset_card_le _

/-- The store only gets more messages and names. -/
theorem within_run (sha256 : List UInt8 → List UInt8) (distiller : Distiller)
    {world : World} (hdb : world.db.Consistent) (events : List Event) :
    world.db.messages.length ≤
        (Run.run (step sha256 distiller) world events).db.messages.length ∧
      names world.db ⊆ names (Run.run (step sha256 distiller) world events).db := by
  induction events generalizing world with
  | nil => exact ⟨Nat.le_refl _, Finset.Subset.refl _⟩
  | cons event events ih =>
      obtain ⟨hmessages, hnames⟩ := ih (consistent_step hdb event)
      cases event with
      | store event =>
          have hgrows := Lcm.grows_step sha256 hdb event.sanitized
          refine ⟨(Lcm.messages_le_step sha256 hdb event.sanitized).trans hmessages, ?_⟩
          refine Finset.Subset.trans (fun name hname => ?_) hnames
          rw [names, List.mem_toFinset] at hname ⊢
          exact (hgrows.conversations.sublist.map _).subset hname
      | distill attempt =>
          have hsame : (step sha256 distiller world (.distill attempt)).db = world.db :=
            db_distillPass distiller world attempt
          rw [hsame] at hmessages hnames
          exact ⟨hmessages, hnames⟩

/-- A store that fits at the end has fitted all along, and has had no other names. -/
theorem meets_within {world : World} (hdb : world.db.Consistent) {events : List Event}
    (hsize : (Run.run (step sha256 distiller) world events).db.messages.length ≤ i64Max) :
    Run.Meets (step sha256 distiller) (fun earlier _ =>
      earlier.db.messages.length ≤ i64Max ∧
        names earlier.db ⊆ names (Run.run (step sha256 distiller) world events).db)
      world events := by
  induction events generalizing world with
  | nil => trivial
  | cons event events ih =>
      obtain ⟨hmessages, hnames⟩ := within_run sha256 distiller hdb (event :: events)
      exact ⟨⟨hmessages.trans hsize, hnames⟩, ih (consistent_step hdb event) hsize⟩

theorem sound_run {world : World} (hworld : world.Sound) {events : List Event}
    (hsize : (Run.run (step sha256 distiller) world events).db.messages.length ≤ i64Max) :
    (Run.run (step sha256 distiller) world events).Sound := by
  have hstep : ∀ (world : World) (event : Event), world.Sound →
      world.db.messages.length ≤ i64Max → (step sha256 distiller world event).Sound :=
    fun _ event hworld hsize => sound_step hworld hsize event
  exact Run.invariant_of_meets hstep hworld
    ((meets_within hworld.enrolled.consistent hsize).mono fun _ _ hwithin => hwithin.1)

theorem consistent_after (sha256 : List UInt8 → List UInt8) (distiller : Distiller)
    (workspace : Workspace) (events : List Event) :
    (after sha256 distiller workspace events).db.Consistent := by
  have hstep : ∀ (world : World) (event : Event), world.db.Consistent →
      (step sha256 distiller world event).db.Consistent :=
    fun _ event hdb => consistent_step hdb event
  have hstart : (World.start workspace).db.Consistent := Lcm.enrolled_empty.consistent
  exact Run.invariant_run hstep hstart events

theorem sound_after {events later : List Event}
    (hsize : (Run.run (step sha256 distiller) (after sha256 distiller workspace events)
      later).db.messages.length ≤ i64Max) :
    (after sha256 distiller workspace events).Sound :=
  sound_run (sound_start workspace) ((within_run sha256 distiller
    (consistent_after sha256 distiller workspace events) later).1.trans hsize)

/-- A turn that replies and leaves the files. -/
def reports : Turn := fun _ workspace => (.ok "done", workspace)

def smallDistiller : Distiller := Distiller.new distillTools 1 4 5 100

def tidy : Attempt := ⟨.bypass, .none, reports, reports, true, true⟩

/-- A session with one message from before priming and one from after it. -/
def primedThenSaid : List Event :=
  [.store (.openSession "general" ""), .store (.push 1 (.user "said before") none ""),
    .distill tidy, .store (.push 1 (.user "said after") none "")]

def primedState : DistillState := ⟨none, SortedMap.empty.insert "general" 1⟩

/-- Only what was said after priming is folded. -/
example : (after (fun _ => []) smallDistiller ⟨.absent, []⟩
      (primedThenSaid ++ [.distill tidy])).folded =
    [("general", [.user "said after"])] := by
  decide

/-! ### Waiting -/

/-- A session with something to fold. -/
def Waits (world : World) (state : DistillState) (name : String) : Prop :=
  0 < tokensOf Message.tokenEstimate (backlog (held world.db) state name)

theorem tokensOf_le {items more : List Message} (hbegins : items <+: more) :
    tokensOf Message.tokenEstimate items ≤ tokensOf Message.tokenEstimate more := by
  obtain ⟨rest, rfl⟩ := hbegins
  rw [tokensOf, tokensOf, List.map_append, List.sum_append]
  exact Nat.le_add_right _ _

/-- A session waits no longer in one step: it is folded, or no further from its
turn. -/
structure Nearer (all : Finset String) (world later : World) (state after : DistillState)
    (name : String) : Prop where
  doc : later.doc = some after
  mark_le : state.mark name ≤ after.mark name
  rank : after.mark name = state.mark name →
    Waits later after name ∧
      RoundRobin.rank all name after.lastSession + later.passes ≤
        RoundRobin.rank all name state.lastSession + world.passes

theorem Folded.nearer {all : Finset String} {world later : World} {before after : DistillState}
    {pending : SortedMap String ℕ} {spans : List (String × List Message)}
    (hall : names world.db ⊆ all) (hdb : later.db = world.db)
    (hdoc : later.doc = some after) (hpasses : later.passes = world.passes + 1)
    (hfolded : Folded (held world.db) distiller.sliceTokens before after pending spans)
    {name : String} (hwaits : Waits world before name) :
    Nearer all world later before after name := by
  refine ⟨hdoc, hfolded.mark_le name, fun hsame => ⟨?_, ?_⟩⟩
  · rw [Waits, backlog, hsame, hdb]
    exact hwaits
  · have hnot : name ∉ spans.map Prod.fst := by
      intro hmem
      obtain ⟨span, hspan, hname⟩ := List.mem_map.1 hmem
      have hlt := hfolded.mark_lt hspan
      rw [hname, hsame] at hlt
      exact lt_irrefl _ hlt
    have hkeys : ∀ other ∈ pending.keys, other ∈ all := by
      intro other hother
      apply hall
      apply mem_names
      intro hnil
      apply backlog_ne_nil ((hfolded.mem_pending other).1 hother)
      rw [backlog, hnil, List.drop_nil]
    cases hlast : (spans.map Prod.fst).getLast? with
    | none =>
        rw [List.getLast?_eq_none_iff, List.map_eq_nil_iff] at hlast
        exact absurd hlast hfolded.ne_nil
    | some last =>
        have hround := RoundRobin.rank_round pending.pairwise_keys hkeys
          hfolded.names_prefix hlast ((hfolded.mem_pending name).2 hwaits) hnot
        rw [hfolded.lastSession, hlast, hpasses]
        omega

theorem nearer_step (sha256 : List UInt8 → List UInt8) (distiller : Distiller)
    {all : Finset String} {world : World} (hworld : world.Sound)
    (hsize : world.db.messages.length ≤ i64Max)
    (hall : names world.db ⊆ all) {state : DistillState}
    (hdoc : world.doc = some state) {name : String} (hwaits : Waits world state name)
    (event : Event) :
    ∃ after, Nearer all world (step sha256 distiller world event) state after name := by
  cases event with
  | store event =>
      refine ⟨state, hdoc, Nat.le_refl _, fun _ => ⟨?_, Nat.le_refl _⟩⟩
      have hgrows := (grows_store sha256 hworld event).held name
      exact lt_of_lt_of_le hwaits (tokensOf_le (hgrows.drop _))
  | distill attempt =>
      cases effect_distillPass hworld.enrolled hsize distiller attempt with
      | idle db doc folded passes grandfathered =>
          refine ⟨state, doc.trans hdoc, Nat.le_refl _, fun _ => ⟨?_, ?_⟩⟩
          · change Waits (world.distillPass distiller attempt) state name
            rw [Waits, db]
            exact hwaits
          · exact Nat.le_of_eq (congrArg (_ + ·) passes)
      | primed primed db missing => rw [hdoc] at missing; cases missing
      | folds before after pending spans db loaded doc folded passes grandfathered effect =>
          obtain rfl := Option.some.inj (hdoc.symm.trans loaded)
          exact ⟨after, effect.nearer hall db doc passes hwaits⟩

/-- No watermark moves back. -/
theorem marks_step {world : World} (hworld : world.Sound)
    (hsize : world.db.messages.length ≤ i64Max) {state : DistillState}
    (hdoc : world.doc = some state) (event : Event) :
    ∃ after, (step sha256 distiller world event).doc = some after ∧
      ∀ name, state.mark name ≤ after.mark name := by
  cases event with
  | store event => exact ⟨state, hdoc, fun _ => Nat.le_refl _⟩
  | distill attempt =>
      cases effect_distillPass hworld.enrolled hsize distiller attempt with
      | idle db doc => exact ⟨state, doc.trans hdoc, fun _ => Nat.le_refl _⟩
      | primed primed db missing => rw [hdoc] at missing; cases missing
      | folds before after pending spans db loaded doc folded passes grandfathered effect =>
          obtain rfl := Option.some.inj (hdoc.symm.trans loaded)
          exact ⟨after, doc, effect.mark_le⟩

theorem marks_run {world : World} (hworld : world.Sound) {events : List Event}
    (hsize : (Run.run (step sha256 distiller) world events).db.messages.length ≤ i64Max)
    {state : DistillState} (hdoc : world.doc = some state) :
    ∃ after, (Run.run (step sha256 distiller) world events).doc = some after ∧
      ∀ name, state.mark name ≤ after.mark name := by
  induction events generalizing world state with
  | nil => exact ⟨state, hdoc, fun _ => Nat.le_refl _⟩
  | cons event events ih =>
      have hfits := (within_run sha256 distiller hworld.enrolled.consistent
        (event :: events)).1.trans hsize
      obtain ⟨middle, hmiddle, hfirst⟩ := marks_step hworld hfits hdoc event
      obtain ⟨after, hafter, hrest⟩ := ih (sound_step hworld hfits event) hsize hmiddle
      exact ⟨after, hafter, fun name => (hfirst name).trans (hrest name)⟩

theorem nearer_run {all : Finset String} {world : World} (hworld : world.Sound)
    {events : List Event}
    (hsize : (Run.run (step sha256 distiller) world events).db.messages.length ≤ i64Max)
    (hall : names (Run.run (step sha256 distiller) world events).db ⊆ all)
    {state : DistillState} (hdoc : world.doc = some state) {name : String}
    (hwaits : Waits world state name) :
    ∃ after, Nearer all world (Run.run (step sha256 distiller) world events) state after
      name := by
  induction events generalizing world state with
  | nil => exact ⟨state, hdoc, Nat.le_refl _, fun _ => ⟨hwaits, Nat.le_refl _⟩⟩
  | cons event events ih =>
      obtain ⟨hmessages, hnames⟩ := within_run sha256 distiller hworld.enrolled.consistent
        (event :: events)
      have hfits := hmessages.trans hsize
      have hnext : (step sha256 distiller world event).Sound := sound_step hworld hfits event
      obtain ⟨middle, hfirst⟩ := nearer_step sha256 distiller hworld hfits
        (hnames.trans hall) hdoc hwaits event
      by_cases hsame : middle.mark name = state.mark name
      · obtain ⟨hstill, hrank⟩ := hfirst.rank hsame
        obtain ⟨after, hrest⟩ := ih hnext hsize hall hfirst.doc hstill
        refine ⟨after, hrest.doc, hfirst.mark_le.trans hrest.mark_le, fun hafter => ?_⟩
        obtain ⟨hwaiting, hlater⟩ := hrest.rank (hafter.trans hsame.symm)
        exact ⟨hwaiting, hlater.trans hrank⟩
      · obtain ⟨after, hafter, hmarks⟩ := marks_run hnext hsize hfirst.doc
        have hmoved := hmarks name
        refine ⟨after, hafter, hfirst.mark_le.trans hmoved, fun heq => ?_⟩
        exact absurd (Nat.le_antisymm (heq ▸ hmoved) hfirst.mark_le) hsame

end Runs

end Kitaebot.Memory
