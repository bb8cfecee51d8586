import Mathlib.Algebra.BigOperators.Group.Finset.Basic
import Mathlib.Algebra.Order.BigOperators.Group.Finset
import Kitaebot.Memory.Distillation

/-!
# Draining a backlog

What one pass folds of a store, and that passes which meet no failure get through any
backlog: each folds something until the gate stays closed.
-/

namespace Kitaebot.Memory

open Context (tokensOf)
open Lcm (Db Enrolled held i64Max)

/-! ### What a pass folds -/

/-- What a pass has folded, and which pending sessions it has left. -/
structure Packs (distiller : Distiller) (world : World) (fold : Turn) (state : DistillState)
    (later : DistillState) (spans : List (String × List Message)) (left : List String) :
    Prop where
  given : ∃ output workspace, fold (foldRequest distiller world.workspace spans)
    world.workspace = (.ok output, workspace)
  waiting : ∀ name, name ∈ spans.map Prod.fst ++ left ↔ Waits world state name
  inTurn : (spans.map Prod.fst ++ left).Pairwise fun first second =>
    RoundRobin.Ahead second first state.lastSession
  usedUp : left ≠ [] → distiller.sliceTokens ≤ spanTokens spans
  page : ∀ front span back, spans = front ++ span :: back →
    spanTokens front < distiller.sliceTokens ∧
      Paging.IsPage Message.tokenEstimate (distiller.sliceTokens - spanTokens front)
        (backlog (held world.db) state span.1) span.2
  lastSession : later.lastSession = (spans.map Prod.fst).getLast?
  marks : ∀ name, later.mark name = Watermarks.advance state.mark spans name

theorem Folded.packs {distiller : Distiller} {world : World} {fold : Turn}
    {state later : DistillState} {pending : SortedMap String ℕ}
    {spans : List (String × List Message)}
    (hfolded : Folded (held world.db) distiller.sliceTokens state later pending spans)
    (hturn : ∃ output workspace, fold (foldRequest distiller world.workspace spans)
      world.workspace = (.ok output, workspace)) :
    ∃ left, Packs distiller world fold state later spans left := by
  obtain ⟨left, horder⟩ := hfolded.names_prefix
  refine ⟨left, hturn, ?_, ?_, ?_, ?_, hfolded.lastSession, hfolded.marks⟩
  · intro name
    rw [horder, sessionOrder, RoundRobin.mem_order]
    exact hfolded.mem_pending name
  · rw [horder]
    exact RoundRobin.pairwise_order pending.pairwise_keys state.lastSession
  · intro hleft
    rw [hfolded.spans_eq] at horder ⊢
    apply pack_exhausts
    intro hall
    rw [hall] at horder
    exact hleft (List.append_cancel_left (horder.trans (List.append_nil _).symm))
  · intro front span back hsplit
    exact isPage_pack (hfolded.spans_eq.symm.trans hsplit)

/-- A pass with a reply has folded the sessions with something pending, in their turn
from the last one folded on: each span is a page of its session's backlog under what
the spans before it leave of the slice, and a session is left only when the slice is
used up. -/
theorem pass_packs (sha256 : List UInt8 → List UInt8) (distiller : Distiller)
    (workspace : Workspace) (events : List Event) (attempt : Attempt)
    (hsize : (after sha256 distiller workspace events).db.messages.length ≤ i64Max)
    {state : DistillState} {reply : String}
    (hreply : (run
      (lcmEngine (after sha256 distiller workspace events).db attempt.faults) distiller
      attempt.fold attempt.retry (after sha256 distiller workspace events).workspace state
      attempt.gate).result = .ok (some reply)) :
    ∃ spans left, Packs distiller (after sha256 distiller workspace events) attempt.fold
      state
      (run (lcmEngine (after sha256 distiller workspace events).db attempt.faults) distiller
        attempt.fold attempt.retry (after sha256 distiller workspace events).workspace state
        attempt.gate).state spans left := by
  have hsound : (after sha256 distiller workspace events).Sound :=
    sound_run (sound_start workspace) hsize
  have hserves := serves_lcm hsound.enrolled hsize attempt.faults
  rcases run_cases hserves attempt.fold attempt.retry
    (after sha256 distiller workspace events).workspace with
    ⟨hnone, _⟩ | ⟨_, pending, _, hfolded, hturn⟩
  · exact absurd hreply (hnone reply)
  · exact ⟨_, hfolded.packs hturn⟩

theorem pass_packs_primedThenSaid :
    ∃ spans left, Packs smallDistiller
      (after (fun _ => []) smallDistiller ⟨.absent, []⟩ primedThenSaid) tidy.fold primedState
      (run (lcmEngine (after (fun _ => []) smallDistiller ⟨.absent, []⟩ primedThenSaid).db
        tidy.faults) smallDistiller tidy.fold tidy.retry
        (after (fun _ => []) smallDistiller ⟨.absent, []⟩ primedThenSaid).workspace
        primedState tidy.gate).state spans left :=
  pass_packs (fun _ => []) smallDistiller ⟨.absent, []⟩ primedThenSaid tidy (by decide)
    (show _ = Except.ok (some "done") from rfl)

/-! ### Passes without failures -/

/-- A pass at this gate whose reads, turns and saves succeed. -/
structure Clean (gate : Gate) (attempt : Attempt) : Prop where
  gate : attempt.gate = gate
  faults : attempt.faults = Faults.none
  fold : ∀ request workspace, ∃ output, (attempt.fold request workspace).1 = .ok output
  saves : attempt.saves = true

/-- The gate is closed, or nothing is pending. -/
def Settled (distiller : Distiller) (gate : Gate) (world : World) (state : DistillState) :
    Prop :=
  (gate = .enforce ∧ totalPending
      (Lcm.pendingDistillTokensSync world.db state.watermarks) < distiller.threshold) ∨
    ∀ name, ¬ Waits world state name

/-- The messages beyond the watermarks. -/
def undistilled (world : World) (state : DistillState) : ℕ :=
  ∑ name ∈ names world.db, (backlog (held world.db) state name).length

theorem gather_total {engine : Engine} {names : List String}
    (htotal : ∀ name ∈ names, ∀ after maxTokens, ∃ messages,
      engine.transcriptSince name after maxTokens = .ok messages)
    (watermarks : SortedMap String ℕ) (start : Gathered) :
    ∃ gathered, gather engine watermarks start names = .ok gathered := by
  induction names generalizing start with
  | nil => exact ⟨start, rfl⟩
  | cons name names ih =>
      obtain ⟨hname, hrest⟩ := List.forall_mem_cons.1 htotal
      rw [gather]
      split_ifs with hbudget
      · exact ⟨start, rfl⟩
      · obtain ⟨messages, hmessages⟩ :=
          hname ((watermarks.find? name).getD 0) start.budget
        simp only [hmessages]
        exact ih hrest _

section Drain

variable {distiller : Distiller} {world : World} {state : DistillState} {gate : Gate}

/-- With something to fold, a pass without failures folds it. -/
theorem reply_of_clean (hworld : world.Sound) (hsize : world.db.messages.length ≤ i64Max)
    (hslice : 0 < distiller.sliceTokens) (hopen : ¬ Settled distiller gate world state)
    {attempt : Attempt} (hclean : Clean gate attempt) :
    ∃ reply, (run (lcmEngine world.db attempt.faults) distiller attempt.fold attempt.retry
      world.workspace state attempt.gate).result = .ok (some reply) := by
  rw [Settled, not_or, not_forall] at hopen
  obtain ⟨hgate, name, hname⟩ := hopen
  rw [not_not] at hname
  rw [hclean.faults, hclean.gate]
  have hserves := serves_lcm hworld.enrolled hsize Faults.none
  have hpending : (lcmEngine world.db Faults.none).pendingDistillTokens state.watermarks =
    .ok (Lcm.pendingDistillTokensSync world.db state.watermarks) := rfl
  generalize Lcm.pendingDistillTokensSync world.db state.watermarks = pending at *
  have hmem := mem_pending hserves hpending
  obtain ⟨gathered, hgather⟩ : ∃ gathered,
      gather (lcmEngine world.db Faults.none) state.watermarks
        (Gathered.new distiller.sliceTokens) (sessionOrder pending state.lastSession) =
          .ok gathered := by
    apply gather_total
    intro other hother position maxTokens
    have hwaits := (hmem other).1 (RoundRobin.mem_order.1 hother)
    cases hlisted : Lcm.listed world.db other with
    | none =>
        rw [backlog, held, hlisted, List.drop_nil] at hwaits
        exact absurd hwaits (lt_irrefl 0)
    | some conversation =>
        exact ⟨_, Lcm.transcriptSince_held hworld.enrolled hsize hlisted position maxTokens⟩
  have hspans : gathered.spans ≠ [] := by
    rw [(gathered_tracks hserves hpending hgather).2]
    have horder : name ∈ sessionOrder pending state.lastSession :=
      RoundRobin.mem_order.2 ((hmem name).2 hname)
    cases hnames : sessionOrder pending state.lastSession with
    | nil =>
        rw [hnames] at horder
        cases horder
    | cons first rest =>
        rw [pack, if_neg hslice.ne']
        exact List.cons_ne_nil _ _
  have hclosed : ¬ (gate = .enforce ∧
      gateOpen (totalPending pending) distiller.threshold = false) := by
    rintro ⟨henforce, hshut⟩
    exact hgate ⟨henforce, Nat.lt_of_not_le (of_decide_eq_false hshut)⟩
  have hfound : openSpans (lcmEngine world.db Faults.none) distiller state gate =
      .ok (some gathered) := by
    rw [openSpans_eq hpending, if_neg hclosed, hgather]
    exact congrArg Except.ok (if_neg hspans)
  obtain ⟨output, houtput⟩ :=
    hclean.fold (foldRequest distiller world.workspace gathered.spans) world.workspace
  rw [run, hfound]
  dsimp only
  cases hturn : attempt.fold (foldRequest distiller world.workspace gathered.spans)
      world.workspace with
  | mk result later =>
      rw [hturn] at houtput
      rw [show result = .ok output from houtput]
      exact ⟨_, rfl⟩

theorem no_reply_of_settled (hworld : world.Sound)
    (hsize : world.db.messages.length ≤ i64Max) (hsettled : Settled distiller gate world state)
    (fold retry : Turn) (reply : String) :
    (run (lcmEngine world.db Faults.none) distiller fold retry world.workspace state
      gate).result ≠ .ok (some reply) := by
  rcases hsettled with ⟨henforce, hlow⟩ | hnone
  · have hpending : (lcmEngine world.db Faults.none).pendingDistillTokens
        state.watermarks = .ok (Lcm.pendingDistillTokensSync world.db state.watermarks) := rfl
    have hshut : gateOpen (totalPending (Lcm.pendingDistillTokensSync world.db
        state.watermarks)) distiller.threshold = false :=
      decide_eq_false (Nat.not_le_of_lt hlow)
    rw [run, openSpans_eq hpending, if_pos ⟨henforce, hshut⟩]
    intro hreply
    cases hreply
  · intro hreply
    rcases run_cases (serves_lcm hworld.enrolled hsize Faults.none) fold retry
      world.workspace with ⟨hno, _⟩ | ⟨_, pending, _, hfolded, _⟩
    · exact hno reply hreply
    · obtain ⟨span, hspan⟩ := List.exists_mem_of_ne_nil _ hfolded.ne_nil
      have hname : span.1 ∈ pending.keys := RoundRobin.mem_order.1
        (hfolded.names_prefix.subset (List.mem_map_of_mem hspan))
      exact hnone span.1 ((hfolded.mem_pending span.1).1 hname)

/-- Folding leaves less to fold. -/
theorem undistilled_lt {later : World} {after : DistillState} {pending : SortedMap String ℕ}
    {spans : List (String × List Message)} (hdb : later.db = world.db)
    (hfolded : Folded (held world.db) distiller.sliceTokens state after pending spans) :
    undistilled later after < undistilled world state := by
  obtain ⟨span, hspan⟩ := List.exists_mem_of_ne_nil _ hfolded.ne_nil
  have hbacklog : backlog (held world.db) state span.1 ≠ [] := by
    intro hnil
    have hprefix := hfolded.span_prefix hspan
    rw [hnil] at hprefix
    exact hfolded.span_ne_nil hspan (List.prefix_nil.1 hprefix)
  rw [undistilled, undistilled, hdb]
  apply Finset.sum_lt_sum
  · intro name _
    have hmark := hfolded.mark_le name
    rw [backlog, backlog, List.length_drop, List.length_drop]
    omega
  · refine ⟨span.1, ?_, ?_⟩
    · apply mem_names
      intro hnil
      rw [backlog, hnil, List.drop_nil] at hbacklog
      exact hbacklog rfl
    · have hmark := hfolded.mark_lt hspan
      have hlength := List.length_pos_of_ne_nil hbacklog
      rw [backlog, List.length_drop] at hlength
      rw [backlog, backlog, List.length_drop, List.length_drop]
      omega

theorem clean_step (hworld : world.Sound) (hsize : world.db.messages.length ≤ i64Max)
    (hslice : 0 < distiller.sliceTokens) (hdoc : world.doc = some state) {attempt : Attempt}
    (hclean : Clean gate attempt) :
    ∃ after, (world.distillPass distiller attempt).doc = some after ∧
      ((Settled distiller gate world state ∧ after = state) ∨
        (¬ Settled distiller gate world state ∧
          undistilled (world.distillPass distiller attempt) after <
            undistilled world state)) := by
  have hserves := serves_lcm hworld.enrolled hsize attempt.faults
  by_cases hsettled : Settled distiller gate world state
  · refine ⟨state, ?_, .inl ⟨hsettled, rfl⟩⟩
    have hreply := no_reply_of_settled hworld hsize hsettled attempt.fold attempt.retry
    simp only [World.distillPass, hdoc, Distiller.loadState, World.prime, hclean.faults,
      hclean.gate]
    rw [settle_no_reply _ hreply]
    exact hdoc
  · obtain ⟨reply, hreply⟩ := reply_of_clean hworld hsize hslice hsettled hclean
    rcases run_cases hserves attempt.fold attempt.retry world.workspace with
      ⟨hno, _⟩ | ⟨_, pending, _, hfolded, _⟩
    · exact absurd hreply (hno reply)
    · have hdb := db_distillPass distiller world attempt
      refine ⟨_, ?_, .inr ⟨hsettled, undistilled_lt hdb hfolded⟩⟩
      simp only [World.distillPass, hdoc, Distiller.loadState, World.prime, World.settle,
        hreply, hclean.saves]
      rfl

end Drain

theorem settled_of_none_undistilled {distiller : Distiller} {world : World}
    {state : DistillState} (hnone : undistilled world state = 0) (gate : Gate) :
    Settled distiller gate world state := by
  refine Or.inr fun name hwaits => ?_
  have hbacklog := backlog_ne_nil hwaits
  have hname : name ∈ names world.db := by
    apply mem_names
    intro hnil
    rw [backlog, hnil, List.drop_nil] at hbacklog
    exact hbacklog rfl
  rw [undistilled, Finset.sum_eq_zero_iff] at hnone
  exact hbacklog (List.length_eq_zero_iff.1 (hnone name hname))

theorem settles {sha256 : List UInt8 → List UInt8} {distiller : Distiller} {gate : Gate}
    (hslice : 0 < distiller.sliceTokens) {attempts : List Attempt}
    (hclean : ∀ attempt ∈ attempts, Clean gate attempt) {world : World}
    (hworld : world.Sound) (hsize : world.db.messages.length ≤ i64Max)
    {state : DistillState} (hdoc : world.doc = some state)
    (henough : Settled distiller gate world state ∨
      undistilled world state ≤ attempts.length) :
    ∃ last, (Run.run (step sha256 distiller) world (attempts.map .distill)).doc = some last ∧
      Settled distiller gate
        (Run.run (step sha256 distiller) world (attempts.map .distill)) last := by
  induction attempts generalizing world state with
  | nil =>
      refine ⟨state, hdoc, ?_⟩
      rcases henough with hsettled | hnone
      · exact hsettled
      · exact settled_of_none_undistilled (Nat.le_zero.1 hnone) gate
  | cons attempt attempts ih =>
      obtain ⟨hfirst, hrest⟩ := List.forall_mem_cons.1 hclean
      have hdb := db_distillPass distiller world attempt
      have hnext : (step sha256 distiller world (.distill attempt)).Sound :=
        sound_step hworld hsize (.distill attempt)
      obtain ⟨after, hafter, hstep⟩ := clean_step hworld hsize hslice hdoc hfirst
      apply ih hrest hnext (hdb ▸ hsize) hafter
      rcases hstep with ⟨hsettled, rfl⟩ | ⟨hopen, hless⟩
      · left
        change Settled distiller gate (world.distillPass distiller attempt) after
        rw [Settled, hdb]
        simp only [Waits, hdb]
        exact hsettled
      · right
        have hbound := henough.resolve_left hopen
        rw [List.length_cons] at hbound
        exact Nat.le_of_lt_succ (lt_of_lt_of_le hless hbound)

theorem clean_tidy : Clean .bypass tidy :=
  ⟨rfl, rfl, fun _ _ => ⟨"done", rfl⟩, rfl⟩

end Kitaebot.Memory
