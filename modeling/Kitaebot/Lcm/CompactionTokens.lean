import Kitaebot.Lcm.CondensedLoop
import Kitaebot.Lcm.Escalation

/-!
# What compaction does to the stored token totals

A summary write takes the tokens of its ordinal range out of the context and
puts the output of the escalation in.  An accepted answer is smaller than the
chunk's own estimate; the deterministic floor is held against a fixed cap only,
and the estimate of a condensed chunk counts the tags around its children.
-/

namespace Kitaebot.Lcm

open OrderedTable

/-! ## One write -/

/-- The stored tokens a context item stands for. -/
def itemTokens (db : Db) (item : ContextItem) : ℕ :=
  match item.ref with
  | .message id => ((db.findMessage id).map MessageRow.tokenCount).getD 0
  | .summary id => ((db.findSummary id).map SummaryRow.tokenCount).getD 0

theorem tokenEstimateSync_eq (db : Db) (conversation : ConversationId) :
    tokenEstimateSync db conversation =
      ((db.conversationItems conversation).map (itemTokens db)).sum := rfl

theorem Db.Extends.itemTokens_eq {before after : Db}
    (hext : before.Extends after) {item : ContextItem}
    (hitem : before.Resolves item) :
    itemTokens after item = itemTokens before item := by
  unfold Db.Resolves at hitem
  cases href : item.ref with
  | message id =>
      rw [href] at hitem
      obtain ⟨row, hfind, _⟩ := hitem
      simp only [itemTokens, href, hfind, hext.messages hfind]
  | summary id =>
      rw [href] at hitem
      obtain ⟨row, hfind⟩ := hitem
      simp only [itemTokens, href, hfind, hext.summaries hfind]

section Write

variable {db : Db} {conversation : ConversationId}

theorem tokens_withSummary (hdb : db.Consistent) {row : SummaryRow}
    (sources : List MessageId) (children : List SummaryId) (low high : ℕ)
    (hfresh : db.findSummary row.summaryId = none) :
    tokenEstimateSync (db.withSummary row sources children low high)
        row.conversationId +
        ((db.rangeItems row.conversationId low high).map (itemTokens db)).sum =
      tokenEstimateSync db row.conversationId + row.tokenCount := by
  have hweight := weight_withSummary db row sources children low high
    (itemTokens (db.withSummary row sources children low high))
  have hkeep : ∀ item ∈ db.contextItems,
      itemTokens (db.withSummary row sources children low high) item =
        itemTokens db item :=
    fun item hitem => extends_withSummary.itemTokens_eq (hdb.items item hitem)
  have hrange : (db.rangeItems row.conversationId low high).map
        (itemTokens (db.withSummary row sources children low high)) =
      (db.rangeItems row.conversationId low high).map (itemTokens db) :=
    List.map_congr_left fun item hitem => hkeep item (mem_rangeItems hitem)
  have hitems : (db.conversationItems row.conversationId).map
        (itemTokens (db.withSummary row sources children low high)) =
      (db.conversationItems row.conversationId).map (itemTokens db) :=
    List.map_congr_left fun item hitem =>
      hkeep item (Db.mem_conversationItems.mp hitem).1
  have hnew : itemTokens (db.withSummary row sources children low high)
      ⟨row.conversationId, low, .summary row.summaryId⟩ = row.tokenCount := by
    simp only [itemTokens, findSummary_withSummary hfresh, Option.map_some,
      Option.getD_some]
  rw [hrange, hitems, hnew] at hweight
  exact hweight

/-- The messages among some items count for no more than all of them. -/
theorem rawRow_tokens_le (db : Db) (items : List ContextItem) :
    ((items.filterMap (rawRow db)).map (·.row.tokenCount)).sum ≤
      (items.map (itemTokens db)).sum := by
  induction items with
  | nil => simp
  | cons item items ih =>
      cases hraw : rawRow db item with
      | none =>
          rw [List.filterMap_cons_none hraw, List.map_cons, List.sum_cons]
          omega
      | some raw =>
          obtain ⟨href, hfind⟩ := rawRow_eq_some hraw
          have htokens : itemTokens db item = raw.row.tokenCount := by
            simp only [itemTokens, href, hfind, Option.map_some,
              Option.getD_some]
          rw [List.filterMap_cons_some hraw, List.map_cons, List.map_cons,
            List.sum_cons, List.sum_cons, htokens]
          omega

/-- The range of a pending condensed chunk holds its children's tokens. -/
theorem CondensedPending.tokens {chunk : CondensedChunk}
    (hchunk : CondensedPending db conversation chunk) :
    ((condensedRange db conversation chunk).map (itemTokens db)).sum =
      (chunk.rows.map CondensedRow.tokenCount).sum := by
  apply congrArg List.sum
  apply Eq.symm
  apply map_eq_of_forall₂ (forall₂_of_map_eq hchunk.rows)
  intro item row hrow
  obtain ⟨summary, hfind, href, heq⟩ := condensedRowOf_eq_some hrow
  have htokens : row.tokenCount = summary.tokenCount := by
    rw [heq, condensedRow]
  simp only [itemTokens, href, hfind, Option.map_some, Option.getD_some,
    htokens]

/-! ## Priced messages -/

/-- Every message row carries the estimate of the message it reads back as. -/
def RowsPriced (db : Db) : Prop :=
  ∀ row ∈ db.messages, ∀ message, reconstructMessage row = .ok message →
    message.tokenEstimate = row.tokenCount

theorem tokenEstimate_asStored (message : Message) :
    (asStored message).tokenEstimate = message.tokenEstimate := by
  cases message with
  | toolCalls content calls =>
      cases calls with
      | nil => simp [asStored, Message.tokenEstimate, Message.charCount,
          Message.content]
      | cons call calls => rfl
  | assistant content => rfl
  | system content => rfl
  | tool callId content => rfl
  | user content => rfl

theorem rowsPriced_push {db : Db} (hdb : RowsPriced db)
    (conversation : ConversationId) (message : Message)
    (largeFile : Option LargeFileRow) (now : String) :
    RowsPriced (pushMessageSync db conversation message largeFile now) := by
  intro row hrow stored hstored
  rw [messages_push] at hrow
  rcases List.mem_append.mp hrow with hold | hnew
  · exact hdb row hold stored hstored
  · rw [List.mem_singleton.mp hnew, pushedRow] at hstored ⊢
    rw [reconstructMessage_messageRow] at hstored
    obtain rfl := Except.ok.inj hstored
    exact tokenEstimate_asStored message

theorem rowsPriced_step (sha256 : List UInt8 → List UInt8) (db : Db)
    (event : Event) (hdb : db.Consistent ∧ RowsPriced db) :
    (step sha256 db event).Consistent ∧ RowsPriced (step sha256 db event) := by
  refine ⟨consistent_step sha256 db event hdb.1, ?_⟩
  cases event with
  | push conversation message largeFile now =>
      exact rowsPriced_push hdb.2 conversation message largeFile now
  | compact conversation cfg outcomes =>
      have hkeeps := runCompaction_preserves
        (P := fun db => db.Consistent ∧ RowsPriced db) (Q := fun _ => True)
        sha256 cfg (fun _ hdb => hdb.1)
        (fun _ _ _ hdb hgroup _ _ hfresh =>
          ⟨consistent_leafWrite hdb.1 hgroup hfresh, hdb.2⟩)
        (fun _ _ _ hdb hchunk _ hfresh =>
          ⟨consistent_condensedWrite hdb.1 hchunk hfresh, hdb.2⟩)
        outcomes hdb (fun group (_ : group ∈ loadLeafGroups db conversation cfg) =>
          trivial)
      exact hkeeps.2
  | clear conversation => exact hdb.2
  | openSession name now =>
      exact openSession_preserves (P := RowsPriced) (fun _ _ hdb => hdb)
        (fun _ conversation _ now hdb =>
          rowsPriced_push hdb conversation _ none now) hdb.2 name now

theorem rowsPriced_history (sha256 : List UInt8 → List UInt8)
    (events : List Event) : RowsPriced (history sha256 events) := by
  have hstart : Db.empty.Consistent ∧ RowsPriced Db.empty :=
    ⟨Db.consistent_empty, by simp [RowsPriced, Db.empty]⟩
  exact (Run.invariant_run (rowsPriced_step sha256) hstart events).2

/-- The input estimate of a leaf chunk is what its rows are stored with. -/
theorem leafChunk_tokens (hpriced : RowsPriced db) {group : List RawRow}
    (hgroup : LeafPending db conversation group) {chunk : LeafChunk}
    (hchunk : leafChunk group = .ok chunk) :
    estimateMessagesTokens chunk.messages =
      (group.map (·.row.tokenCount)).sum := by
  rw [estimateMessagesTokens, LeafChunk.messages, List.map_map]
  apply congrArg List.sum
  have hrelated : List.Forall₂ (fun raw row => raw ∈ group ∧
      chunkRow raw = .ok row) group chunk.rows :=
    List.forall₂_iff_get.mpr ⟨(leafChunk_ok hchunk).length_eq, fun index h h' =>
      ⟨List.get_mem _ _, (List.forall₂_iff_get.mp (leafChunk_ok hchunk)).2 _ h h'⟩⟩
  apply map_eq_of_forall₂ hrelated
  intro raw row hrow
  have hmem := (Db.mem_of_findMessage (hgroup.sources raw hrow.1)).1
  have hrow' := hrow.2
  unfold chunkRow at hrow'
  cases hmessage : reconstructMessage raw.row with
  | error error => simp [hmessage, bind, Except.bind] at hrow'
  | ok message =>
      simp only [hmessage, bind, Except.bind, Except.ok.injEq] at hrow'
      rw [← hrow']
      exact hpriced raw.row hmem message hmessage

/-- A leaf write takes out at least the tokens of its chunk. -/
theorem writeLeafSummary_tokens {sha256 : List UInt8 → List UInt8} {after : Db}
    (hdb : db.Consistent) (hpriced : RowsPriced db) {group : List RawRow}
    (hgroup : LeafPending db conversation group) {chunk : LeafChunk}
    {outcome : EscalationOutcome} (hchunk : leafChunk group = .ok chunk)
    (hwrite : writeLeafSummary sha256 db conversation chunk outcome =
      .ok after) :
    tokenEstimateSync after conversation +
        estimateMessagesTokens chunk.messages ≤
      tokenEstimateSync db conversation + outcome.outputTokens := by
  obtain ⟨hfresh, hafter⟩ := insertSummary_ok hwrite
  have htokens := tokens_withSummary hdb (chunk.rows.map ChunkRow.messageId) []
    (firstKey ChunkRow.ordinal chunk.rows)
    (lastKey ChunkRow.ordinal chunk.rows) hfresh
  have hrange := rawRow_tokens_le db (leafRange db conversation group)
  rw [hgroup.rows, leafRange,
    ← firstKey_congr (leafChunk_ordinals hchunk),
    ← lastKey_congr (leafChunk_ordinals hchunk)] at hrange
  rw [← hafter] at htokens
  simp only [leafSummaryRow] at htokens
  rw [leafChunk_tokens hpriced hgroup hchunk]
  omega

/-- A condensed write trades the tokens of its children for its own. -/
theorem writeCondensedSummary_tokens {sha256 : List UInt8 → List UInt8}
    {after : Db} (hdb : db.Consistent) {chunk : CondensedChunk}
    (hchunk : CondensedPending db conversation chunk)
    {outcome : EscalationOutcome}
    (hwrite : writeCondensedSummary sha256 db conversation chunk outcome =
      .ok after) :
    tokenEstimateSync after conversation +
        (chunk.rows.map CondensedRow.tokenCount).sum =
      tokenEstimateSync db conversation + outcome.outputTokens := by
  obtain ⟨hfresh, hafter⟩ := insertSummary_ok hwrite
  have htokens := tokens_withSummary hdb []
    (chunk.rows.map CondensedRow.summaryId)
    (firstKey CondensedRow.ordinal chunk.rows)
    (lastKey CondensedRow.ordinal chunk.rows) hfresh
  have hrange := hchunk.tokens
  rw [condensedRange] at hrange
  rw [← hafter] at htokens
  simp only [condensedSummaryRow] at htokens
  omega

end Write

/-! ## A whole cycle with its summarizer -/

section Cycle

variable (sha256 : List UInt8 → List UInt8) (conversation : ConversationId)
  (cfg : LcmConfig)

/-- The chunk the loop summarizes next. -/
def CondensedLoop.chunk? (loop : CondensedLoop) : Option CondensedChunk :=
  match condensedBatch loop.db conversation cfg loop.pending with
  | .ok (chunk :: _) => some chunk
  | _ => none

/-- The outcomes of the leaf chunks. -/
def leafOutcomes (chunks : List LeafChunk) (answers : List ChunkAnswers) :
    List EscalationOutcome :=
  chunks.zipWith (fun chunk answers => summarizeChunk chunk.messages answers)
    answers

/-- The outcomes of the condensed loop, each from the chunk it is about. -/
def condensedOutcomes : CondensedLoop → List ChunkAnswers →
    List EscalationOutcome
  | _, [] => []
  | loop, first :: answers =>
      match loop.chunk? conversation cfg with
      | none => []
      | some chunk =>
          let outcome := summarizeChunk chunk.messages first
          outcome :: match loop.write sha256 conversation cfg outcome with
            | some next => condensedOutcomes next answers
            | none => []

/-- The outcomes of a cycle, from what the model answers chunk by chunk. -/
def cycleOutcomes (db : Db) (answers : List ChunkAnswers) :
    List EscalationOutcome :=
  match loadLeafChunks db conversation cfg with
  | .error _ => []
  | .ok chunks =>
      let leaf := leafOutcomes chunks answers
      leaf ++ condensedOutcomes sha256 conversation cfg
        ⟨[], (leafPass sha256 conversation chunks leaf db).db⟩
        (answers.drop chunks.length)

/-- Every leaf chunk settles on a text within its own estimate. -/
def LeafFits (chunks : List LeafChunk) (answers : List ChunkAnswers) : Prop :=
  ∀ pair ∈ chunks.zip answers,
    Settles pair.1.messages pair.2 (estimateMessagesTokens pair.1.messages)

instance (chunks : List LeafChunk) (answers : List ChunkAnswers) :
    Decidable (LeafFits chunks answers) :=
  inferInstanceAs (Decidable (∀ pair ∈ chunks.zip answers, _))

/-- Every chunk of the loop settles on a text within its children's tokens. -/
def CondensedFits : CondensedLoop → List ChunkAnswers → Prop
  | _, [] => True
  | loop, first :: answers =>
      ∀ chunk ∈ loop.chunk? conversation cfg,
        Settles chunk.messages first
            (chunk.rows.map CondensedRow.tokenCount).sum ∧
          ∀ next ∈ loop.write sha256 conversation cfg
            (summarizeChunk chunk.messages first), CondensedFits next answers

instance decidableCondensedFits : (loop : CondensedLoop) →
    (answers : List ChunkAnswers) →
      Decidable (CondensedFits sha256 conversation cfg loop answers)
  | _, [] => inferInstanceAs (Decidable True)
  | loop, first :: answers =>
      have := fun next => decidableCondensedFits next answers
      inferInstanceAs (Decidable (∀ chunk ∈ loop.chunk? conversation cfg,
        Settles chunk.messages first
            (chunk.rows.map CondensedRow.tokenCount).sum ∧
          ∀ next ∈ loop.write sha256 conversation cfg
            (summarizeChunk chunk.messages first),
            CondensedFits sha256 conversation cfg next answers))

/-- Every chunk of a cycle settles on a text within the tokens it replaces. -/
def CycleFits (db : Db) (answers : List ChunkAnswers) : Prop :=
  ∀ chunks ∈ (loadLeafChunks db conversation cfg).toOption,
    LeafFits chunks answers ∧
      CondensedFits sha256 conversation cfg
        ⟨[], (leafPass sha256 conversation chunks (leafOutcomes chunks answers)
          db).db⟩
        (answers.drop chunks.length)

instance (db : Db) (answers : List ChunkAnswers) :
    Decidable (CycleFits sha256 conversation cfg db answers) :=
  inferInstanceAs (Decidable
    (∀ chunks ∈ (loadLeafChunks db conversation cfg).toOption, _))

variable {sha256 conversation cfg}

theorem chunk?_of_batch {loop : CondensedLoop} {chunk : CondensedChunk}
    {chunks : List CondensedChunk}
    (hbatch : condensedBatch loop.db conversation cfg loop.pending =
      .ok (chunk :: chunks)) :
    loop.chunk? conversation cfg = some chunk := by
  simp only [CondensedLoop.chunk?, hbatch]

/-- Without a chunk the pass stops where it is. -/
theorem condensedPass_nil (loop : CondensedLoop) :
    (condensedPass sha256 conversation cfg [] loop.pending loop.db).db =
      loop.db := by
  rw [condensedPass.eq_def]
  cases condensedBatch loop.db conversation cfg loop.pending with
  | error error => rfl
  | ok chunks =>
      cases chunks with
      | nil => rfl
      | cons chunk chunks => rfl

/-- The loop does not grow the context while its chunks settle. -/
theorem condensedPass_tokens (answers : List ChunkAnswers) {loop : CondensedLoop}
    (hloop : loop.Valid conversation cfg)
    (hfits : CondensedFits sha256 conversation cfg loop answers) :
    tokenEstimateSync (condensedPass sha256 conversation cfg
        (condensedOutcomes sha256 conversation cfg loop answers) loop.pending
        loop.db).db conversation ≤
      tokenEstimateSync loop.db conversation := by
  induction answers generalizing loop with
  | nil =>
      rw [condensedOutcomes, condensedPass_nil]
  | cons first answers ih =>
      rw [condensedOutcomes]
      rw [CondensedFits] at hfits
      cases hchunk : loop.chunk? conversation cfg with
      | none =>
          simp only
          rw [condensedPass_nil]
      | some chunk =>
          simp only
          obtain ⟨hsettles, hnext⟩ := hfits chunk hchunk
          cases hwrite : loop.write sha256 conversation cfg
              (summarizeChunk chunk.messages first) with
          | none =>
              simp only
              rcases condensedPass_stop hwrite with hstop | hstop
              · rw [hstop]
              · rw [hstop]
          | some next =>
              simp only
              obtain ⟨written, hbatch, hdb⟩ := write_eq_some hwrite
              have hwritten : written = chunk := by
                have hsame := chunk?_of_batch hbatch
                rw [hchunk] at hsame
                exact (Option.some.inj hsame).symm
              rw [hwritten] at hbatch hdb
              have hchunks := hloop.chunks.of_batch hloop.consistent hbatch
              have htokens := writeCondensedSummary_tokens hloop.consistent
                (hchunks.pending chunk List.mem_cons_self) hdb
              rw [← outputTokens_le_iff] at hsettles
              have hrest := ih (hloop.write hwrite).1 (hnext next hwrite)
              rw [condensedPass_write hwrite]
              omega

/-- The leaf pass does not grow the context while its chunks settle. -/
theorem leafPass_tokens {groups : List (List RawRow)} {chunks : List LeafChunk}
    (hchunks : List.Forall₂ (fun group chunk => leafChunk group = .ok chunk)
      groups chunks)
    (hdisjoint : groups.Pairwise fun left right =>
      lastKey RawRow.ordinal left < firstKey RawRow.ordinal right)
    (answers : List ChunkAnswers) {db : Db} (hdb : db.Consistent)
    (hpriced : RowsPriced db)
    (hpending : ∀ group ∈ groups, LeafPending db conversation group)
    (hfits : LeafFits chunks answers) :
    tokenEstimateSync (leafPass sha256 conversation chunks
        (leafOutcomes chunks answers) db).db conversation ≤
      tokenEstimateSync db conversation := by
  induction hchunks generalizing answers db with
  | nil => exact le_rfl
  | @cons group chunk groups chunks hchunk hchunks ih =>
      cases answers with
      | nil => exact le_rfl
      | cons first answers =>
          have hsettles : (summarizeChunk chunk.messages first).outputTokens ≤
              estimateMessagesTokens chunk.messages :=
            (outputTokens_le_iff _ _ _).mpr (hfits (chunk, first) (by simp))
          have hgroup := hpending group List.mem_cons_self
          obtain ⟨hfirst, hlater⟩ := List.pairwise_cons.mp hdisjoint
          rw [leafOutcomes, List.zipWith_cons_cons, leafPass]
          cases hwrite : writeLeafSummary sha256 db conversation chunk
              (summarizeChunk chunk.messages first) with
          | error error => exact le_rfl
          | ok after =>
              have htokens := writeLeafSummary_tokens hdb hpriced hgroup hchunk
                hwrite
              obtain ⟨row, hrow, hfresh, hafter⟩ :=
                writeLeafSummary_ok hchunk hwrite
              have hconsistent : after.Consistent := by
                rw [hafter]
                exact consistent_leafWrite hdb hgroup hfresh
              have hpriced' : RowsPriced after := by
                rw [hafter]
                exact hpriced
              have hrest := ih hlater answers hconsistent hpriced'
                (fun later hmem => by
                  rw [hafter]
                  exact hgroup.keeps hdb hrow (hfirst later hmem)
                    (hpending later (List.mem_cons_of_mem _ hmem)))
                (fun pair hpair => hfits pair (List.mem_cons_of_mem _ hpair))
              simp only
              rw [leafOutcomes] at hrest
              omega

/-- A leaf pass with one outcome for each chunk leaves the further ones. -/
theorem leafPass_append {chunks : List LeafChunk}
    {outcomes : List EscalationOutcome}
    (hlength : outcomes.length = chunks.length)
    (more : List EscalationOutcome) (db : Db) :
    leafPass sha256 conversation chunks (outcomes ++ more) db =
      let result := leafPass sha256 conversation chunks outcomes db
      ⟨result.db, result.rest.map (· ++ more)⟩ := by
  induction chunks generalizing outcomes db with
  | nil =>
      rw [List.eq_nil_of_length_eq_zero hlength]
      rfl
  | cons chunk chunks ih =>
      cases outcomes with
      | nil => cases hlength
      | cons outcome outcomes =>
          rw [List.cons_append, leafPass, leafPass]
          cases writeLeafSummary sha256 db conversation chunk outcome with
          | error error => rfl
          | ok after => exact ih (Nat.succ.inj hlength) after

/-- A leaf pass that finishes leaves what is beyond its chunks. -/
theorem leafPass_rest {chunks : List LeafChunk}
    {outcomes rest : List EscalationOutcome} {db : Db}
    (hrest : (leafPass sha256 conversation chunks outcomes db).rest =
      some rest) : rest = outcomes.drop chunks.length := by
  induction chunks generalizing outcomes db with
  | nil => exact (Option.some.inj hrest).symm
  | cons chunk chunks ih =>
      cases outcomes with
      | nil => cases hrest
      | cons outcome outcomes =>
          rw [leafPass] at hrest
          cases hwrite : writeLeafSummary sha256 db conversation chunk outcome with
          | error error => simp [hwrite] at hrest
          | ok after =>
              simp only [hwrite] at hrest
              exact ih hrest

theorem length_leafOutcomes_le (chunks : List LeafChunk)
    (answers : List ChunkAnswers) :
    (leafOutcomes chunks answers).length ≤ chunks.length := by
  rw [leafOutcomes, List.length_zipWith]
  exact Nat.min_le_left _ _

/-- Whatever follows the leaf outcomes of a cycle is left to its loop. -/
theorem leafPass_leafOutcomes (chunks : List LeafChunk)
    (answers : List ChunkAnswers) (loop : CondensedLoop) (db : Db) :
    leafPass sha256 conversation chunks
        (leafOutcomes chunks answers ++ condensedOutcomes sha256 conversation cfg
          loop (answers.drop chunks.length)) db =
      let result :=
        leafPass sha256 conversation chunks (leafOutcomes chunks answers) db
      ⟨result.db, result.rest.map (· ++ condensedOutcomes sha256 conversation cfg
        loop (answers.drop chunks.length))⟩ := by
  by_cases hlength : chunks.length ≤ answers.length
  · apply leafPass_append
    rw [leafOutcomes, List.length_zipWith]
    exact Nat.min_eq_left hlength
  · have hdrop : answers.drop chunks.length = [] := by
      rw [List.drop_eq_nil_iff]
      omega
    rw [hdrop, condensedOutcomes, List.append_nil]
    simp

/-- A cycle whose chunks settle within the tokens they replace does not grow
the context. -/
theorem compactionPasses_tokens {db : Db} (hdb : db.Consistent)
    (hpriced : RowsPriced db) {answers : List ChunkAnswers}
    (hfits : CycleFits sha256 conversation cfg db answers) :
    tokenEstimateSync (compactionPasses sha256 db conversation cfg
        (cycleOutcomes sha256 conversation cfg db answers)).db conversation ≤
      tokenEstimateSync db conversation := by
  unfold CycleFits at hfits
  unfold compactionPasses cycleOutcomes
  cases hload : loadLeafChunks db conversation cfg with
  | error error => exact le_rfl
  | ok chunks =>
      simp only
      obtain ⟨hleafFits, hcondensedFits⟩ := hfits chunks (by rw [hload]; rfl)
      have hgroups := mapM_ok_forall₂ hload
      have hdisjoint := loadLeafGroups_pairwise hdb conversation cfg
      have hleaf : tokenEstimateSync (leafPass sha256 conversation chunks
          (leafOutcomes chunks answers) db).db conversation ≤
          tokenEstimateSync db conversation :=
        leafPass_tokens hgroups hdisjoint answers hdb hpriced
          (fun group hgroup => leafPending_of_load hdb hgroup) hleafFits
      have hconsistent := consistent_afterLeafPass sha256 hdb conversation cfg
        (leafOutcomes chunks answers)
      simp only [afterLeafPass, hload] at hconsistent
      have hloop : CondensedLoop.Valid conversation cfg
          ⟨[], (leafPass sha256 conversation chunks (leafOutcomes chunks answers)
            db).db⟩ := ⟨hconsistent, Chunks.nil _⟩
      have hcondensed := condensedPass_tokens (answers.drop chunks.length) hloop
        hcondensedFits
      rw [leafPass_leafOutcomes]
      cases hpass : leafPass sha256 conversation chunks
          (leafOutcomes chunks answers) db with
      | mk after rest =>
          rw [hpass] at hleaf hcondensed
          cases rest with
          | none => exact hleaf
          | some rest =>
              have hrest : rest = [] := by
                have hdrop := leafPass_rest (congrArg PassResult.rest hpass)
                rw [hdrop, List.drop_eq_nil_iff]
                exact length_leafOutcomes_le chunks answers
              rw [hrest]
              exact hcondensed.trans hleaf

end Cycle

/-! ## When compaction shrinks -/

/-- A chunk's output is within its input, and below it when an answer is
accepted, exactly when an answer is accepted or the floor fits.  A cycle whose
chunks all settle within the tokens they replace does not grow the context. -/
theorem compaction_shrinks_iff (messages : List Message) (answers : ChunkAnswers)
    (sha256 : List UInt8 → List UInt8) (events : List Event)
    (conversation : ConversationId) (cfg : LcmConfig) (cycle : List ChunkAnswers) :
    ((summarizeChunk messages answers).outputTokens ≤
          (summarizeChunk messages answers).inputTokens ∧
        ((summarizeChunk messages answers).level ≠ .deterministic →
          (summarizeChunk messages answers).outputTokens <
            (summarizeChunk messages answers).inputTokens) ↔
      (firstAccepted (estimateMessagesTokens messages)
          answers.inOrder).isSome = true ∨
        floorTokens messages ≤ estimateMessagesTokens messages) ∧
    (CycleFits sha256 conversation cfg (history sha256 events) cycle →
      ∀ event : CompactionEvent,
        (runCompaction sha256 (history sha256 events) conversation cfg
            (cycleOutcomes sha256 conversation cfg (history sha256 events)
              cycle)).2 = some event →
          event.after ≤ event.before) := by
  constructor
  · obtain ⟨hinput, hcases⟩ := summarizeChunk_cases messages answers
    rw [← settles_input_iff, ← outputTokens_le_iff, hinput]
    generalize summarizeChunk messages answers = outcome at hcases ⊢
    constructor
    · intro hwithin
      exact hwithin.1
    · intro hle
      refine ⟨hle, ?_⟩
      intro hlevel
      cases haccepted : firstAccepted (estimateMessagesTokens messages)
          answers.inOrder with
      | none =>
          simp only [haccepted] at hcases
          exact absurd hcases.1 hlevel
      | some content =>
          simp only [haccepted] at hcases
          exact hcases.2.2.2
  · intro hfits event hevent
    have htokens := compactionPasses_tokens
      (consistent_history sha256 events) (rowsPriced_history sha256 events) hfits
    rw [runCompaction] at hevent
    obtain ⟨_, _, rfl⟩ := Option.map_eq_some_iff.mp hevent
    exact htokens

/-- A chunk of two short lines, both levels failing. -/
def shortLines : List Event :=
  [.openSession "general" "t", .push 1 (.user "hi") none "t",
    .push 1 (.assistant "ok") none "t", .push 1 (.user "go on") none "t"]

/-- The rendering of short lines is longer than their estimates add up to. -/
theorem shortLines_grow :
    (summarizeChunk [.user "hi"] ⟨none, none, none⟩).inputTokens = 0 ∧
      (summarizeChunk [.user "hi"] ⟨none, none, none⟩).outputTokens = 2 ∧
      (runCompaction (fun bytes => bytes)
          (history (fun bytes => bytes) shortLines) 1 ⟨1, 100, 2⟩
          (cycleOutcomes (fun bytes => bytes) 1 ⟨1, 100, 2⟩
            (history (fun bytes => bytes) shortLines)
            [⟨none, none, none⟩])).2 = some ⟨1, 7⟩ := by
  decide +kernel

/-- A chunk worth summarizing, with an answer that is accepted. -/
def longLines : List Event :=
  [.openSession "general" "t",
    .push 1 (.user "please list every file below the source directory") none "t",
    .push 1 (.assistant "there are three of them") none "t",
    .push 1 (.user "go on") none "t"]

theorem longLines_shrink :
    (runCompaction (fun bytes => bytes)
        (history (fun bytes => bytes) longLines) 1 ⟨1, 100, 2⟩
        (cycleOutcomes (fun bytes => bytes) 1 ⟨1, 100, 2⟩
          (history (fun bytes => bytes) longLines)
          [⟨none, some "three files", none⟩])).2 = some ⟨18, 3⟩ ∧
      (3 : ℕ) ≤ 18 := by
  have hrun : (runCompaction (fun bytes => bytes)
      (history (fun bytes => bytes) longLines) 1 ⟨1, 100, 2⟩
      (cycleOutcomes (fun bytes => bytes) 1 ⟨1, 100, 2⟩
        (history (fun bytes => bytes) longLines)
        [⟨none, some "three files", none⟩])).2 = some ⟨18, 3⟩ := by
    decide +kernel
  have hfits : CycleFits (fun bytes => bytes) 1 ⟨1, 100, 2⟩
      (history (fun bytes => bytes) longLines)
      [⟨none, some "three files", none⟩] := by
    decide
  exact ⟨hrun, (compaction_shrinks_iff [] ⟨none, none, none⟩ _ _ _ _ _).2 hfits _ hrun⟩

end Kitaebot.Lcm
