import Mathlib.Algebra.BigOperators.Group.List.Basic
import Kitaebot.Lcm.System

/-!
# The condensed loop ends

The loop reloads and writes condensed chunks until none is eligible.  A write
replaces a run of at least `min_condensed_fanout` summary items by one, so the
number of summary items in context is the measure of the loop.
-/

namespace Kitaebot.Lcm

open OrderedTable

/-! ## Weighing the context -/

/-- A summary write takes the weight of its range out of the context and puts
the weight of its item in. -/
theorem weight_withSummary (db : Db) (row : SummaryRow)
    (sources : List MessageId) (children : List SummaryId) (low high : ℕ)
    (weight : ContextItem → ℕ) :
    (((db.withSummary row sources children low high).conversationItems
        row.conversationId).map weight).sum +
        ((db.rangeItems row.conversationId low high).map weight).sum =
      ((db.conversationItems row.conversationId).map weight).sum +
        weight ⟨row.conversationId, low, .summary row.summaryId⟩ := by
  have hrange : (db.rangeItems row.conversationId low high).Perm
      ((db.conversationItems row.conversationId).filter
        (inRange ContextItem.ordinal low high)) :=
    (orderBy_perm ContextItem.ordinal _).filter _
  have hsplit : ((db.conversationItems row.conversationId).filter
        (inRange ContextItem.ordinal low high) ++
      (db.conversationItems row.conversationId).filter fun item =>
        !inRange ContextItem.ordinal low high item).Perm
      (db.conversationItems row.conversationId) :=
    List.filter_append_perm _ _
  have htotal := (hsplit.map weight).sum_eq
  rw [List.map_append, List.sum_append] at htotal
  rw [conversationItems_withSummary, collapse, List.map_append, List.sum_append,
    (hrange.map weight).sum_eq, List.map_singleton, List.sum_singleton]
  omega

/-- Whether a context item stands for a summary. -/
def ContextItem.isSummary (item : ContextItem) : Bool :=
  match item.ref with
  | .message _ => false
  | .summary _ => true

/-- The summary items in the context of a conversation. -/
def summaryItems (db : Db) (conversation : ConversationId) : ℕ :=
  ((db.conversationItems conversation).map fun item =>
    if item.isSummary then 1 else 0).sum

theorem CondensedPending.length {db : Db} {conversation : ConversationId}
    {chunk : CondensedChunk} (hchunk : CondensedPending db conversation chunk) :
    (condensedRange db conversation chunk).length = chunk.rows.length := by
  have hlength := congrArg List.length hchunk.rows
  rwa [List.length_map, List.length_map] at hlength

/-- The range of a pending chunk holds its own summaries and nothing else. -/
theorem CondensedPending.refs {db : Db} {conversation : ConversationId}
    {chunk : CondensedChunk} (hchunk : CondensedPending db conversation chunk) :
    (condensedRange db conversation chunk).map ContextItem.ref =
      chunk.rows.map fun row => .summary row.summaryId :=
  condensed_ids hchunk.rows

theorem CondensedPending.isSummary {db : Db} {conversation : ConversationId}
    {chunk : CondensedChunk} (hchunk : CondensedPending db conversation chunk)
    {item : ContextItem} (hitem : item ∈ condensedRange db conversation chunk) :
    item.isSummary = true := by
  have href : item.ref ∈
      chunk.rows.map fun row => ItemRef.summary row.summaryId := by
    rw [← hchunk.refs]
    exact List.mem_map_of_mem hitem
  obtain ⟨row, _, hrow⟩ := List.mem_map.mp href
  simp only [ContextItem.isSummary, ← hrow]

/-- A condensed write trades the items of its chunk for one. -/
theorem summaryItems_condensedWrite {db : Db} {chunk : CondensedChunk}
    {row : SummaryRow}
    (hchunk : CondensedPending db row.conversationId chunk) :
    summaryItems (db.withSummary row [] (chunk.rows.map CondensedRow.summaryId)
        (firstKey CondensedRow.ordinal chunk.rows)
        (lastKey CondensedRow.ordinal chunk.rows)) row.conversationId +
        chunk.rows.length =
      summaryItems db row.conversationId + 1 := by
  have hweight := weight_withSummary db row []
    (chunk.rows.map CondensedRow.summaryId)
    (firstKey CondensedRow.ordinal chunk.rows)
    (lastKey CondensedRow.ordinal chunk.rows)
    (fun item => if item.isSummary then 1 else 0)
  have hones : (condensedRange db row.conversationId chunk).map
      (fun item => if item.isSummary then 1 else 0) =
      List.replicate chunk.rows.length 1 := by
    rw [← hchunk.length, ← List.map_const']
    apply List.map_congr_left
    intro item hitem
    rw [if_pos (hchunk.isSummary hitem)]
  rw [condensedRange] at hones
  have hnew : ContextItem.isSummary ⟨row.conversationId,
      firstKey CondensedRow.ordinal chunk.rows, .summary row.summaryId⟩ = true :=
    rfl
  rw [hones, List.sum_replicate_nat, mul_one, if_pos hnew] at hweight
  exact hweight

/-! ## The loop as a step that may refuse -/

/-- Where the loop stands between two writes. -/
structure CondensedLoop where
  pending : List CondensedChunk
  db : Db
  deriving DecidableEq, Repr

section Loop

variable (sha256 : List UInt8 → List UInt8) (conversation : ConversationId)
  (cfg : LcmConfig)

/-- The next write of the loop: the first chunk of the batch at hand or of a new
load, with the outcome of its summarization. -/
def CondensedLoop.write (loop : CondensedLoop) (outcome : EscalationOutcome) :
    Option CondensedLoop :=
  match condensedBatch loop.db conversation cfg loop.pending with
  | .ok (chunk :: chunks) =>
      match writeCondensedSummary sha256 loop.db conversation chunk outcome with
      | .ok db => some ⟨chunks, db⟩
      | .error _ => none
  | _ => none

/-- The loop after a list of writes. -/
def CondensedLoop.writes (loop : CondensedLoop)
    (outcomes : List EscalationOutcome) : Option CondensedLoop :=
  outcomes.foldlM (fun loop outcome => loop.write sha256 conversation cfg outcome)
    loop

variable {sha256 conversation cfg}

theorem write_eq_some {loop next : CondensedLoop} {outcome : EscalationOutcome}
    (hwrite : loop.write sha256 conversation cfg outcome = some next) :
    ∃ chunk, condensedBatch loop.db conversation cfg loop.pending =
        .ok (chunk :: next.pending) ∧
      writeCondensedSummary sha256 loop.db conversation chunk outcome =
        .ok next.db := by
  unfold CondensedLoop.write at hwrite
  split at hwrite
  · next chunk chunks hbatch =>
      split at hwrite
      · next db hdb =>
          obtain rfl := Option.some.inj hwrite
          exact ⟨chunk, hbatch, hdb⟩
      · cases hwrite
  · cases hwrite

/-- The pass takes the writes of the loop one after the other. -/
theorem condensedPass_write {loop next : CondensedLoop}
    {outcome : EscalationOutcome}
    (hwrite : loop.write sha256 conversation cfg outcome = some next)
    (outcomes : List EscalationOutcome) :
    condensedPass sha256 conversation cfg (outcome :: outcomes) loop.pending
        loop.db =
      condensedPass sha256 conversation cfg outcomes next.pending next.db := by
  obtain ⟨chunk, hbatch, hdb⟩ := write_eq_some hwrite
  rw [condensedPass.eq_def]
  simp only [hbatch, hdb]

/-- Where the loop takes no write, the pass stops, and what it leaves of the
outcomes is all of them or none. -/
theorem condensedPass_stop {loop : CondensedLoop} {outcome : EscalationOutcome}
    (hwrite : loop.write sha256 conversation cfg outcome = none) :
    (∀ outcomes, condensedPass sha256 conversation cfg (outcome :: outcomes)
        loop.pending loop.db = ⟨loop.db, none⟩) ∨
      ∀ outcomes, condensedPass sha256 conversation cfg (outcome :: outcomes)
        loop.pending loop.db = ⟨loop.db, some (outcome :: outcomes)⟩ := by
  unfold CondensedLoop.write at hwrite
  cases hbatch : condensedBatch loop.db conversation cfg loop.pending with
  | error error =>
      left
      intro outcomes
      rw [condensedPass.eq_def]
      simp only [hbatch]
  | ok chunks =>
      cases chunks with
      | nil =>
          right
          intro outcomes
          rw [condensedPass.eq_def]
          simp only [hbatch]
      | cons chunk chunks =>
          left
          intro outcomes
          simp only [hbatch] at hwrite
          split at hwrite
          · cases hwrite
          · next error herror =>
              rw [condensedPass.eq_def]
              simp only [hbatch, herror]

/-! ## What holds between the writes -/

/-- Chunks that occupy disjoint ranges of the context, each holding the
summaries of its own chunk, at least the configured number of them. -/
structure Chunks (db : Db) (conversation : ConversationId) (cfg : LcmConfig)
    (chunks : List CondensedChunk) : Prop where
  pending : ∀ chunk ∈ chunks, CondensedPending db conversation chunk
  fanout : ∀ chunk ∈ chunks, cfg.minCondensedFanout ≤ chunk.rows.length
  disjoint : chunks.Pairwise fun left right =>
    lastKey CondensedRow.ordinal left.rows <
      firstKey CondensedRow.ordinal right.rows

theorem Chunks.nil (db : Db) : Chunks db conversation cfg [] :=
  ⟨by simp, by simp, List.Pairwise.nil⟩

/-- Every load yields such chunks. -/
theorem Chunks.of_load {db : Db} (hdb : db.Consistent)
    {chunks : List CondensedChunk}
    (hload : loadCondensedChunks db conversation cfg = .ok chunks) :
    Chunks db conversation cfg chunks where
  pending _ hchunk := condensedPending_of_load hdb hload hchunk
  fanout chunk hchunk := by
    rw [loadCondensedChunks_ok hload] at hchunk
    exact (condensedRuns_rows RunState.empty hchunk).2.2
  disjoint := loadCondensedChunks_pairwise hdb hload

theorem Chunks.of_batch {db : Db} (hdb : db.Consistent)
    {pending chunks : List CondensedChunk}
    (hpending : Chunks db conversation cfg pending)
    (hbatch : condensedBatch db conversation cfg pending = .ok chunks) :
    Chunks db conversation cfg chunks := by
  unfold condensedBatch at hbatch
  split at hbatch
  · exact Chunks.of_load hdb hbatch
  · cases hbatch
    exact hpending

/-- Writing the first chunk leaves the chunks after it valid. -/
theorem Chunks.write {db : Db} (hdb : db.Consistent) {chunk : CondensedChunk}
    {chunks : List CondensedChunk} {row : SummaryRow}
    (hchunks : Chunks db conversation cfg (chunk :: chunks))
    (hrow : SummarizesChunk conversation chunk row) :
    Chunks (db.withSummary row [] (chunk.rows.map CondensedRow.summaryId)
      (firstKey CondensedRow.ordinal chunk.rows)
      (lastKey CondensedRow.ordinal chunk.rows)) conversation cfg chunks := by
  obtain ⟨hfirst, hlater⟩ := List.pairwise_cons.mp hchunks.disjoint
  have hchunk := hchunks.pending chunk List.mem_cons_self
  have howner := hrow.conversationId
  refine ⟨?_, fun later hmem => hchunks.fanout later (List.mem_cons_of_mem _ hmem),
    hlater⟩
  intro later hmem
  rw [← howner]
  apply CondensedPending.withSummary hdb (hchunk.range_le hdb)
    (hfirst later hmem)
  rw [howner]
  exact hchunks.pending later (List.mem_cons_of_mem _ hmem)

/-- The invariant of the loop. -/
structure CondensedLoop.Valid (conversation : ConversationId) (cfg : LcmConfig)
    (loop : CondensedLoop) : Prop where
  consistent : loop.db.Consistent
  chunks : Chunks loop.db conversation cfg loop.pending

/-- A write keeps the invariant and trades a whole run of summary items for
one. -/
theorem CondensedLoop.Valid.write {loop next : CondensedLoop}
    {outcome : EscalationOutcome} (hloop : loop.Valid conversation cfg)
    (hwrite : loop.write sha256 conversation cfg outcome = some next) :
    next.Valid conversation cfg ∧
      summaryItems next.db conversation + cfg.minCondensedFanout ≤
        summaryItems loop.db conversation + 1 := by
  obtain ⟨chunk, hbatch, hdb⟩ := write_eq_some hwrite
  have hchunks := hloop.chunks.of_batch hloop.consistent hbatch
  obtain ⟨row, hrow, hfresh, hnext⟩ := writeCondensedSummary_ok hdb
  have hchunk := hchunks.pending chunk List.mem_cons_self
  have hfanout := hchunks.fanout chunk List.mem_cons_self
  constructor
  · constructor
    · rw [hnext]
      exact consistent_condensedWrite hloop.consistent hchunk hfresh
    · rw [hnext]
      exact hchunks.write hloop.consistent hrow
  · have howner := hrow.conversationId
    rw [← howner] at hchunk
    have hitems := summaryItems_condensedWrite hchunk
    rw [← hnext, howner] at hitems
    omega

theorem CondensedLoop.Valid.write_lt {loop next : CondensedLoop}
    {outcome : EscalationOutcome} (hfanout : 2 ≤ cfg.minCondensedFanout)
    (hloop : loop.Valid conversation cfg)
    (hwrite : loop.write sha256 conversation cfg outcome = some next) :
    summaryItems next.db conversation < summaryItems loop.db conversation := by
  have hitems := (hloop.write hwrite).2
  omega

theorem CondensedLoop.Valid.writes {loop last : CondensedLoop}
    {outcomes : List EscalationOutcome} (hloop : loop.Valid conversation cfg)
    (hwrites : loop.writes sha256 conversation cfg outcomes = some last) :
    last.Valid conversation cfg :=
  Run.invariant_foldlM (fun _ _ _ hloop hwrite => (hloop.write hwrite).1) hloop
    hwrites

/-- A run of the loop has at most as many writes as summary items are gone. -/
theorem CondensedLoop.Valid.length_writes {loop last : CondensedLoop}
    {outcomes : List EscalationOutcome} (hfanout : 2 ≤ cfg.minCondensedFanout)
    (hloop : loop.Valid conversation cfg)
    (hwrites : loop.writes sha256 conversation cfg outcomes = some last) :
    outcomes.length + summaryItems last.db conversation ≤
      summaryItems loop.db conversation :=
  Run.length_add_measure_le (fun loop => summaryItems loop.db conversation)
    (fun _ _ _ hloop hwrite => (hloop.write hwrite).1)
    (fun _ _ _ hloop hwrite => hloop.write_lt hfanout hwrite) hloop hwrites

/-- The pass never uses more outcomes than there are summary items: any further
ones are left over. -/
theorem CondensedLoop.Valid.pass_append (hfanout : 2 ≤ cfg.minCondensedFanout)
    {loop : CondensedLoop} (hloop : loop.Valid conversation cfg)
    {outcomes : List EscalationOutcome}
    (hlength : summaryItems loop.db conversation < outcomes.length)
    (more : List EscalationOutcome) :
    condensedPass sha256 conversation cfg (outcomes ++ more) loop.pending
        loop.db =
      let result :=
        condensedPass sha256 conversation cfg outcomes loop.pending loop.db
      ⟨result.db, result.rest.map (· ++ more)⟩ := by
  induction outcomes generalizing loop with
  | nil => exact absurd hlength (Nat.not_lt_zero _)
  | cons outcome outcomes ih =>
      rw [List.cons_append]
      cases hwrite : loop.write sha256 conversation cfg outcome with
      | some next =>
          have hitems := hloop.write_lt hfanout hwrite
          rw [List.length_cons] at hlength
          rw [condensedPass_write hwrite, condensedPass_write hwrite]
          exact ih (hloop.write hwrite).1 (by omega)
      | none =>
          rcases condensedPass_stop hwrite with hstop | hstop
          · rw [hstop, hstop]
            rfl
          · rw [hstop, hstop]
            rfl

end Loop

/-- The database the leaf pass of a cycle hands to the condensed loop. -/
def afterLeafPass (sha256 : List UInt8 → List UInt8) (db : Db)
    (conversation : ConversationId) (cfg : LcmConfig)
    (outcomes : List EscalationOutcome) : Db :=
  match loadLeafChunks db conversation cfg with
  | .error _ => db
  | .ok chunks => (leafPass sha256 conversation chunks outcomes db).db

theorem consistent_afterLeafPass (sha256 : List UInt8 → List UInt8) {db : Db}
    (hdb : db.Consistent) (conversation : ConversationId) (cfg : LcmConfig)
    (outcomes : List EscalationOutcome) :
    (afterLeafPass sha256 db conversation cfg outcomes).Consistent := by
  unfold afterLeafPass
  cases hload : loadLeafChunks db conversation cfg with
  | error error => exact hdb
  | ok chunks =>
      exact leafPass_preserves (P := Db.Consistent) (Q := fun _ => True) sha256
        (fun _ hdb => hdb)
        (fun _ _ _ hdb hgroup _ _ hfresh =>
          consistent_leafWrite hdb hgroup hfresh)
        (mapM_ok_forall₂ hload) (loadLeafGroups_pairwise hdb conversation cfg)
        outcomes hdb (fun _ hgroup => leafPending_of_load hdb hgroup)
        (fun _ _ => trivial)

/-- A cycle whose leaf pass finishes goes on with the condensed loop there. -/
theorem compactionPasses_eq {sha256 : List UInt8 → List UInt8} {db after : Db}
    {conversation : ConversationId} {cfg : LcmConfig} {chunks : List LeafChunk}
    {outcomes rest : List EscalationOutcome}
    (hload : loadLeafChunks db conversation cfg = .ok chunks)
    (hleaf : leafPass sha256 conversation chunks outcomes db =
      ⟨after, some rest⟩) :
    compactionPasses sha256 db conversation cfg outcomes =
      condensedPass sha256 conversation cfg rest []
        (afterLeafPass sha256 db conversation cfg outcomes) := by
  simp only [compactionPasses, afterLeafPass, hload, hleaf]

/-! ## Termination -/

/-- The loop entered at `start` ends.  Along all its runs, the writes are at
most as many as the summary items they remove, the chunks of a load and those
still waiting are disjoint and hold their own summaries, each write leaves
fewer summary items, and the pass returns without using up its outcomes. -/
structure CondensedLoop.Ends (sha256 : List UInt8 → List UInt8)
    (conversation : ConversationId) (cfg : LcmConfig) (start : Db) : Prop where
  length_le : ∀ outcomes loop,
    CondensedLoop.writes sha256 conversation cfg ⟨[], start⟩ outcomes =
        some loop →
      outcomes.length + summaryItems loop.db conversation ≤
        summaryItems start conversation
  loaded : ∀ outcomes loop chunks,
    CondensedLoop.writes sha256 conversation cfg ⟨[], start⟩ outcomes =
        some loop →
      loadCondensedChunks loop.db conversation cfg = .ok chunks →
        Chunks loop.db conversation cfg chunks
  waiting : ∀ outcomes loop,
    CondensedLoop.writes sha256 conversation cfg ⟨[], start⟩ outcomes =
        some loop →
      Chunks loop.db conversation cfg loop.pending
  fewer : ∀ outcomes loop outcome next,
    CondensedLoop.writes sha256 conversation cfg ⟨[], start⟩ outcomes =
        some loop →
      loop.write sha256 conversation cfg outcome = some next →
        summaryItems next.db conversation < summaryItems loop.db conversation
  returns : ∀ outcomes more,
    summaryItems start conversation < outcomes.length →
      condensedPass sha256 conversation cfg (outcomes ++ more) [] start =
        let result := condensedPass sha256 conversation cfg outcomes [] start
        ⟨result.db, result.rest.map (· ++ more)⟩

/-- In every reachable store, the condensed loop of a compaction cycle ends
after finitely many writes, whatever the summarizer produces. -/
theorem condensedLoop_ends (sha256 : List UInt8 → List UInt8)
    (events : List Event) (conversation : ConversationId) (cfg : LcmConfig)
    (hfanout : 2 ≤ cfg.minCondensedFanout)
    (leafOutcomes : List EscalationOutcome) :
    CondensedLoop.Ends sha256 conversation cfg
      (afterLeafPass sha256 (history sha256 events) conversation cfg
        leafOutcomes) := by
  have hdb := consistent_afterLeafPass sha256 (consistent_history sha256 events)
    conversation cfg leafOutcomes
  have hstart : CondensedLoop.Valid conversation cfg
      ⟨[], afterLeafPass sha256 (history sha256 events) conversation cfg
        leafOutcomes⟩ := ⟨hdb, Chunks.nil _⟩
  constructor
  case length_le =>
    intro outcomes loop hwrites
    exact hstart.length_writes hfanout hwrites
  case loaded =>
    intro outcomes loop chunks hwrites hload
    exact Chunks.of_load (hstart.writes hwrites).consistent hload
  case waiting =>
    intro outcomes loop hwrites
    exact (hstart.writes hwrites).chunks
  case fewer =>
    intro outcomes loop outcome next hwrites hwrite
    exact (hstart.writes hwrites).write_lt hfanout hwrite
  case returns =>
    intro outcomes more hlength
    exact hstart.pass_append hfanout hlength more

/-- The loop over the context of two leaf summaries. -/
theorem condensedLoop_ends_two_leaves :
    CondensedLoop.Ends (fun bytes => bytes) 1 ⟨1, 2, 2⟩
      (afterLeafPass (fun bytes => bytes)
        (history (fun bytes => bytes)
          [.openSession "general" "t", .push 1 (.user "first message") none "t",
            .push 1 (.assistant "first answer") none "t",
            .push 1 (.user "second message") none "t"]) 1 ⟨1, 2, 2⟩
        [⟨"a", .normal, 3, 0⟩, ⟨"b", .normal, 3, 0⟩]) ∧
      summaryItems
        (afterLeafPass (fun bytes => bytes)
          (history (fun bytes => bytes)
            [.openSession "general" "t",
              .push 1 (.user "first message") none "t",
              .push 1 (.assistant "first answer") none "t",
              .push 1 (.user "second message") none "t"]) 1 ⟨1, 2, 2⟩
          [⟨"a", .normal, 3, 0⟩, ⟨"b", .normal, 3, 0⟩]) 1 = 2 :=
  ⟨condensedLoop_ends _ _ _ _ (by decide) _, by decide +kernel⟩

end Kitaebot.Lcm
