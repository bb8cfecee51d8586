import Kitaebot.Lcm.System
import Kitaebot.ToolRounds

/-!
# Tool rounds under compaction

Chunks are cut by tokens, by the pin and by the fresh tail, none of which looks
at tool rounds.  A cycle that runs to its end summarizes everything outside the
tail except the pinned user message, so a round survives or disappears as a
whole unless the fresh tail begins inside it.
-/

namespace Kitaebot.Lcm

open OrderedTable

/-! ## Histories of whole rounds -/

/-- A message that is neither a tool-call message nor a result. -/
structure PlainMessage where
  message : Message
  plain : message.inRound = false
  deriving DecidableEq

/-- A call and the result that answers it. -/
structure Answer where
  call : ToolCall
  result : String
  largeFile : Option LargeFileRow
  deriving DecidableEq

/-- What happens to a conversation between two requests: a plain message, a
tool-call message with exactly its results, a compaction cycle, a clear. -/
inductive Exchange where
  | say (conversation : ConversationId) (message : PlainMessage)
      (largeFile : Option LargeFileRow) (now : String)
  | round (conversation : ConversationId) (content : String)
      (answers : List Answer) (now : String)
  | compact (conversation : ConversationId) (cfg : LcmConfig)
      (outcomes : List EscalationOutcome)
  | clear (conversation : ConversationId)
  deriving DecidableEq

/-- Push messages one after another. -/
def pushAll (conversation : ConversationId) (now : String) (db : Db)
    (messages : List (Message × Option LargeFileRow)) : Db :=
  messages.foldl (fun db (message, largeFile) =>
    pushMessageSync db conversation message largeFile now) db

/-- The messages of a tool round. -/
def roundMessages (content : String) (answers : List Answer) :
    List (Message × Option LargeFileRow) :=
  (.toolCalls content (answers.map Answer.call), none) ::
    answers.map fun answer =>
      (.tool answer.call.id answer.result, answer.largeFile)

def exchange (sha256 : List UInt8 → List UInt8) (db : Db) : Exchange → Db
  | .say conversation message largeFile now =>
      pushAll conversation now db [(message.message, largeFile)]
  | .round conversation content answers now =>
      pushAll conversation now db (roundMessages content answers)
  | .compact conversation cfg outcomes =>
      (runCompaction sha256 db conversation cfg outcomes).1
  | .clear conversation => clear db conversation

/-- The fresh tail does not begin with a tool result. -/
def tailStartsWhole (db : Db) (conversation : ConversationId)
    (cfg : LcmConfig) : Bool :=
  let raw := rawRows db conversation
  (raw.drop (raw.length - cfg.freshTailCount)).head?.all
    (!·.row.role == .tool)

/-- The condition on a cycle: it runs to its end, and the fresh tail it finds
does not begin with a tool result. -/
def cutFree (sha256 : List UInt8 → List UInt8) (db : Db) : Exchange → Prop
  | .compact conversation cfg outcomes =>
      (runCompaction sha256 db conversation cfg outcomes).2.isSome = true ∧
        tailStartsWhole db conversation cfg = true
  | _ => True

instance (sha256 : List UInt8 → List UInt8) (db : Db) :
    (event : Exchange) → Decidable (cutFree sha256 db event)
  | .compact .. => inferInstanceAs (Decidable (_ ∧ _))
  | .say .. => inferInstanceAs (Decidable True)
  | .round .. => inferInstanceAs (Decidable True)
  | .clear _ => inferInstanceAs (Decidable True)

/-! ## Reading the raw rows -/

/-- The rows read back as the messages. -/
def Reads (raw : List RawRow) (messages : List Message) : Prop :=
  List.Forall₂ (fun row message => reconstructMessage row.row = .ok message)
    raw messages

/-- The raw messages in context are whole rounds. -/
structure Settled (db : Db) (conversation : ConversationId) : Prop where
  consistent : db.Consistent
  rounds : ∃ messages, Reads (rawRows db conversation) messages ∧
    Rounds messages

theorem reads_pushAll {db : Db} (hdb : db.Consistent)
    (conversation other : ConversationId) (now : String)
    (pushed : List (Message × Option LargeFileRow)) {messages : List Message}
    (hreads : Reads (rawRows db other) messages) :
    (pushAll conversation now db pushed).Consistent ∧
      Reads (rawRows (pushAll conversation now db pushed) other)
        (messages ++ if conversation = other then
          pushed.map fun entry => asStored entry.1 else []) := by
  induction pushed generalizing db messages with
  | nil =>
      refine ⟨hdb, ?_⟩
      have hnone : (if conversation = other then
          ([] : List (Message × Option LargeFileRow)).map
            fun entry => asStored entry.1 else []) = [] := by
        split <;> rfl
      rw [hnone, List.append_nil]
      exact hreads
  | cons entry pushed ih =>
      obtain ⟨message, largeFile⟩ := entry
      have hrows := rawRows_push conversation message largeFile now hdb other
      have hnext := consistent_push conversation message largeFile now hdb
      by_cases hother : conversation = other
      · rw [if_pos hother] at hrows
        have hreads' : Reads (rawRows (pushMessageSync db conversation message
            largeFile now) other) (messages ++ [asStored message]) := by
          rw [hrows]
          refine List.rel_append hreads (.cons ?_ .nil)
          exact reconstructMessage_messageRow _ _ _ _ message
        obtain ⟨hconsistent, hresult⟩ := ih hnext hreads'
        refine ⟨hconsistent, ?_⟩
        rw [if_pos hother, List.append_assoc] at hresult
        rw [if_pos hother]
        exact hresult
      · rw [if_neg hother, List.append_nil] at hrows
        rw [← hrows] at hreads
        obtain ⟨hconsistent, hresult⟩ := ih hnext hreads
        refine ⟨hconsistent, ?_⟩
        rw [if_neg hother] at hresult
        rw [if_neg hother]
        exact hresult

theorem settle_answers (answers : List Answer) :
    settle (answers.map fun answer => answer.call.id)
      (answers.map fun answer => .tool answer.call.id answer.result) =
        some [] := by
  induction answers with
  | nil => rfl
  | cons answer answers ih =>
      rw [List.map_cons, List.map_cons, settle, advance, if_pos rfl,
        Option.bind_some, ih]

/-- The stored messages of a round are a whole round. -/
theorem rounds_roundMessages (content : String) (answers : List Answer) :
    Rounds ((roundMessages content answers).map fun entry =>
      asStored entry.1) := by
  cases answers with
  | nil => rfl
  | cons answer answers =>
      have hcalls : advance [] (asStored (.toolCalls content
          ((answer :: answers).map Answer.call))) =
            some ((answer :: answers).map fun answer => answer.call.id) := by
        simp only [asStored, List.map_cons, advance, List.map_map]
        rfl
      rw [Rounds, roundMessages, List.map_cons, List.map_map, settle, hcalls]
      exact settle_answers (answer :: answers)

/-! ## A cycle that runs to its end -/

theorem filter_not_inRange {rows group : List RawRow} {low high : ℕ}
    (hgroup : rows.filter (inRange RawRow.ordinal low high) = group) :
    rows.filter (fun raw => !inRange RawRow.ordinal low high raw) =
      rows.filter fun raw => !group.contains raw := by
  apply List.filter_congr
  intro raw hraw
  congr 1
  rw [Bool.eq_iff_iff, List.contains_iff_mem, ← hgroup, List.mem_filter]
  exact ⟨fun hin => ⟨hraw, hin⟩, fun hmem => hmem.2⟩

/-- A leaf write removes the rows of its group. -/
theorem rawRows_leafWrite {db : Db} (hdb : db.Consistent)
    {conversation : ConversationId} {group : List RawRow}
    (hgroup : LeafPending db conversation group) {row : SummaryRow}
    (hrow : SummarizesGroup conversation group row) :
    rawRows (db.withSummary row (group.map (·.row.messageId)) []
        (firstKey RawRow.ordinal group) (lastKey RawRow.ordinal group))
        conversation =
      (rawRows db conversation).filter fun raw => !group.contains raw := by
  have hrange := hgroup.rows
  rw [leafRange, filterMap_rangeItems, ← hrow.conversationId] at hrange
  rw [← hrow.conversationId, rawRows_withSummary hdb (hgroup.range_le hdb)]
  exact filter_not_inRange hrange

/-- A condensed write removes no row. -/
theorem rawRows_condensedWrite {db : Db} (hdb : db.Consistent)
    {conversation : ConversationId} {chunk : CondensedChunk}
    (hchunk : CondensedPending db conversation chunk) {row : SummaryRow}
    (hrow : SummarizesChunk conversation chunk row) :
    rawRows (db.withSummary row [] (chunk.rows.map CondensedRow.summaryId)
        (firstKey CondensedRow.ordinal chunk.rows)
        (lastKey CondensedRow.ordinal chunk.rows)) conversation =
      rawRows db conversation := by
  have hnone : (condensedRange db conversation chunk).filterMap (rawRow db) =
      [] := by
    rw [List.filterMap_eq_nil_iff]
    intro item hitem
    have hentry : condensedRowOf db item ∈ chunk.rows.map some := by
      rw [← hchunk.rows]
      exact List.mem_map.mpr ⟨item, hitem, rfl⟩
    obtain ⟨_, _, hrowOf⟩ := List.mem_map.mp hentry
    obtain ⟨_, _, href, _⟩ := condensedRowOf_eq_some hrowOf.symm
    simp only [rawRow, href]
  rw [condensedRange, filterMap_rangeItems, ← hrow.conversationId] at hnone
  rw [← hrow.conversationId, rawRows_withSummary hdb (hchunk.range_le hdb),
    filter_not_inRange hnone]
  simp

/-- A finished leaf pass removes exactly the rows of its groups. -/
theorem leafPass_rawRows (sha256 : List UInt8 → List UInt8)
    {conversation : ConversationId} {groups : List (List RawRow)}
    {chunks : List LeafChunk}
    (hchunks : List.Forall₂ (fun group chunk => leafChunk group = .ok chunk)
      groups chunks)
    (hdisjoint : groups.Pairwise fun left right =>
      lastKey RawRow.ordinal left < firstKey RawRow.ordinal right)
    {outcomes : List EscalationOutcome} {db : Db} (hdb : db.Consistent)
    (hpending : ∀ group ∈ groups, LeafPending db conversation group)
    {after : Db} {rest : List EscalationOutcome}
    (hpass : leafPass sha256 conversation chunks outcomes db =
      ⟨after, some rest⟩) :
    after.Consistent ∧
      rawRows after conversation = (rawRows db conversation).filter fun raw =>
        !groups.flatten.contains raw := by
  induction hchunks generalizing outcomes db with
  | nil =>
      cases hpass
      refine ⟨hdb, ?_⟩
      simp
  | @cons group chunk groups chunks hchunk hchunks ih =>
      cases outcomes with
      | nil => cases hpass
      | cons outcome outcomes =>
          rw [leafPass] at hpass
          split at hpass
          · cases hpass
          · next next hnext =>
              obtain ⟨row, hrow, hfresh, rfl⟩ := writeLeafSummary_ok hchunk hnext
              obtain ⟨hfirst, hlater⟩ := List.pairwise_cons.mp hdisjoint
              have hgroup := hpending group List.mem_cons_self
              have hrest := ih hlater
                (consistent_leafWrite hdb hgroup hfresh)
                (fun later hmem => hgroup.keeps hdb hrow (hfirst later hmem)
                  (hpending later (List.mem_cons_of_mem _ hmem))) hpass
              refine ⟨hrest.1, ?_⟩
              rw [hrest.2, rawRows_leafWrite hdb hgroup hrow, List.filter_filter]
              apply List.filter_congr
              intro raw _
              rw [List.flatten_cons, Bool.eq_iff_iff]
              simp [and_comm]

/-- The condensed loop removes no row. -/
theorem condensedPass_rawRows (sha256 : List UInt8 → List UInt8)
    (cfg : LcmConfig) {conversation : ConversationId} {db : Db}
    (hdb : db.Consistent) (outcomes : List EscalationOutcome) :
    rawRows (condensedPass sha256 conversation cfg outcomes [] db).db
        conversation = rawRows db conversation := by
  have hpass := condensedPass_preserves
    (P := fun after => after.Consistent ∧
      rawRows after conversation = rawRows db conversation) sha256 cfg
    (fun _ hafter => hafter.1)
    (fun after chunk row hafter hchunk hrow hfresh =>
      ⟨consistent_condensedWrite hafter.1 hchunk hfresh,
        (rawRows_condensedWrite hafter.1 hchunk hrow).trans hafter.2⟩)
    outcomes ⟨hdb, rfl⟩ (by simp) List.Pairwise.nil
  exact hpass.2

/-- After a cycle that runs to its end, the rows left are the pinned message
and the fresh tail. -/
theorem rawRows_runCompaction (sha256 : List UInt8 → List UInt8) {db : Db}
    (hdb : db.Consistent) (conversation : ConversationId) (cfg : LcmConfig)
    (outcomes : List EscalationOutcome)
    (hdone : (runCompaction sha256 db conversation cfg outcomes).2.isSome =
      true) :
    rawRows (runCompaction sha256 db conversation cfg outcomes).1 conversation =
      (eligibleRows cfg (rawRows db conversation)).filter
          (fun raw => decide
            (some raw.ordinal = pinnedOrdinal (rawRows db conversation))) ++
        (rawRows db conversation).drop
          ((rawRows db conversation).length - cfg.freshTailCount) := by
  have hfinal : rawRows (runCompaction sha256 db conversation cfg outcomes).1
      conversation = (rawRows db conversation).filter fun raw =>
        !(loadLeafGroups db conversation cfg).flatten.contains raw := by
    rw [runCompaction, Option.isSome_map] at hdone
    rw [runCompaction]
    unfold compactionPasses at hdone ⊢
    cases hload : loadLeafChunks db conversation cfg with
    | error error => simp [hload] at hdone
    | ok chunks =>
        simp only [hload] at hdone ⊢
        cases hpass : leafPass sha256 conversation chunks outcomes db with
        | mk after rest =>
            cases rest with
            | none => simp [hpass] at hdone
            | some rest =>
                obtain ⟨hafter, hrows⟩ := leafPass_rawRows sha256
                  (mapM_ok_forall₂ hload)
                  (loadLeafGroups_pairwise hdb conversation cfg) hdb
                  (fun group hgroup => leafPending_of_load hdb hgroup) hpass
                rw [condensedPass_rawRows sha256 cfg hafter, hrows]
  have hincreasing := hdb.increasing_rawRows conversation
  rw [hfinal, loadLeafGroups_flatten]
  generalize pinnedOrdinal (rawRows db conversation) = pinned
  rw [eligibleRows]
  generalize rawRows db conversation = raw at hincreasing
  generalize raw.length - cfg.freshTailCount = count
  have hnodup : (raw.take count ++ raw.drop count).Nodup := by
    rw [List.take_append_drop]
    exact hincreasing.nodup_map.of_map
  have hdisjoint := (List.nodup_append.mp hnodup).2.2
  conv_lhs =>
    rw [← List.take_append_drop count raw, List.filter_append]
  congr 1
  · apply List.filter_congr
    intro row hrow
    rw [List.take_append_drop, Bool.eq_iff_iff]
    simp [hrow]
  · rw [List.take_append_drop, List.filter_eq_self]
    intro row hrow
    rw [Bool.not_eq_true', ← Bool.not_eq_true, List.contains_iff_mem]
    intro hmem
    exact hdisjoint row (List.mem_filter.mp hmem).1 row hrow rfl

/-! ## Rounds are kept -/

theorem reads_head {raw : List RawRow} {messages : List Message}
    (hreads : Reads raw messages)
    (hhead : raw.head?.all (!·.row.role == .tool) = true) :
    ∀ message ∈ messages.head?, message.isTool = false := by
  intro message hmessage
  cases hreads with
  | nil => cases hmessage
  | @cons row first raw messages hrow _ =>
      have hfirst : first = message := by simpa using hmessage
      subst hfirst
      have hrole : row.row.role ≠ .tool := by simpa using hhead
      unfold reconstructMessage at hrow
      cases hkind : row.row.role with
      | tool => exact absurd hkind hrole
      | user =>
          rw [hkind] at hrow
          cases hrow
          rfl
      | system =>
          rw [hkind] at hrow
          cases hrow
          rfl
      | assistant =>
          simp only [hkind] at hrow
          cases hcalls : row.row.callParts.mapM
              (reconstructCall row.row.messageId) with
          | error error => simp [hcalls, bind, Except.bind] at hrow
          | ok calls =>
              simp only [hcalls, bind, Except.bind] at hrow
              split at hrow
              · cases hrow
                rfl
              · cases hrow
                rfl

/-- The row at the pinned ordinal is a user message. -/
theorem role_of_pinned {db : Db} (hdb : db.Consistent)
    {conversation : ConversationId} {raw : RawRow}
    (hraw : raw ∈ rawRows db conversation)
    (hpinned : some raw.ordinal = pinnedOrdinal (rawRows db conversation)) :
    raw.row.role = .user := by
  obtain ⟨hmem, _⟩ := List.max?_eq_some_iff.mp hpinned.symm
  obtain ⟨other, hother, hordinal⟩ := List.mem_map.mp hmem
  obtain ⟨hotherRaw, hrole⟩ := List.mem_filter.mp hother
  have hsame : other = raw := List.inj_on_of_nodup_map
    (hdb.increasing_rawRows conversation).nodup_map hotherRaw hraw hordinal
  rw [← hsame]
  exact eq_of_beq hrole

theorem reads_users {raw : List RawRow}
    (hroles : ∀ row ∈ raw, row.row.role = .user) :
    Reads raw (raw.map fun row => .user row.row.content) := by
  induction raw with
  | nil => exact .nil
  | cons row raw ih =>
      refine .cons ?_ (ih fun other hother =>
        hroles other (List.mem_cons_of_mem _ hother))
      rw [reconstructMessage, hroles row List.mem_cons_self]

theorem settled_compaction (sha256 : List UInt8 → List UInt8) {db : Db}
    {conversation : ConversationId} (hdb : Settled db conversation)
    {cfg : LcmConfig} {outcomes : List EscalationOutcome}
    (hdone : (runCompaction sha256 db conversation cfg outcomes).2.isSome =
      true)
    (htail : tailStartsWhole db conversation cfg = true) :
    Settled (runCompaction sha256 db conversation cfg outcomes).1
      conversation := by
  refine ⟨consistent_compaction sha256 hdb.consistent conversation cfg outcomes,
    ?_⟩
  obtain ⟨messages, hreads, hrounds⟩ := hdb.rounds
  rw [rawRows_runCompaction sha256 hdb.consistent conversation cfg outcomes
    hdone]
  have htailReads := List.forall₂_drop
    ((rawRows db conversation).length - cfg.freshTailCount) hreads
  rw [← List.take_append_drop
    ((rawRows db conversation).length - cfg.freshTailCount) messages] at hrounds
  have htailRounds := (hrounds.cut (reads_head htailReads htail)).2
  refine ⟨_, List.rel_append (reads_users ?_) htailReads,
    (rounds_of_plain ?_).append htailRounds⟩
  · intro row hrow
    obtain ⟨heligible, hpinned⟩ := List.mem_filter.mp hrow
    exact role_of_pinned hdb.consistent
      ((eligibleRows_start cfg _).subset heligible) (of_decide_eq_true hpinned)
  · intro message hmessage
    obtain ⟨_, _, rfl⟩ := List.mem_map.mp hmessage
    rfl

theorem rawRows_runCompaction_other (sha256 : List UInt8 → List UInt8)
    {db : Db} (hdb : db.Consistent) {conversation other : ConversationId}
    (hother : conversation ≠ other) (cfg : LcmConfig)
    (outcomes : List EscalationOutcome) :
    rawRows (runCompaction sha256 db conversation cfg outcomes).1 other =
      rawRows db other := by
  have hcycle := runCompaction_preserves
    (P := fun after => after.Consistent ∧
      rawRows after other = rawRows db other) (Q := fun _ => True) sha256 cfg
    (fun _ hafter => hafter.1)
    (fun after group row hafter hgroup _ hrow hfresh =>
      ⟨consistent_leafWrite hafter.1 hgroup hfresh,
        (rawRows_withSummary_other hafter.1
          (by rw [hrow.conversationId]; exact hother)).trans hafter.2⟩)
    (fun after chunk row hafter hchunk hrow hfresh =>
      ⟨consistent_condensedWrite hafter.1 hchunk hfresh,
        (rawRows_withSummary_other hafter.1
          (by rw [hrow.conversationId]; exact hother)).trans hafter.2⟩)
    outcomes ⟨hdb, rfl⟩ (fun _ _ => trivial)
  exact hcycle.2

theorem settled_pushAll {db : Db} {other : ConversationId}
    (hdb : Settled db other) (conversation : ConversationId) (now : String)
    {pushed : List (Message × Option LargeFileRow)}
    (hpushed : Rounds (pushed.map fun entry => asStored entry.1)) :
    Settled (pushAll conversation now db pushed) other := by
  obtain ⟨messages, hreads, hrounds⟩ := hdb.rounds
  obtain ⟨hconsistent, hnext⟩ :=
    reads_pushAll hdb.consistent conversation other now pushed hreads
  refine ⟨hconsistent, _, hnext, hrounds.append ?_⟩
  split
  · exact hpushed
  · rfl

theorem settled_exchange (sha256 : List UInt8 → List UInt8) {db : Db}
    {other : ConversationId} (hdb : Settled db other) {event : Exchange}
    (hevent : cutFree sha256 db event) :
    Settled (exchange sha256 db event) other := by
  cases event with
  | say conversation message largeFile now =>
      apply settled_pushAll hdb
      apply rounds_of_plain
      intro stored hstored
      have hmessage : stored = asStored message.message := by
        simpa using hstored
      have hplain := message.plain
      rw [hmessage]
      cases hkind : message.message with
      | toolCalls content calls => rw [hkind] at hplain; cases hplain
      | tool callId content => rw [hkind] at hplain; cases hplain
      | user content => rfl
      | assistant content => rfl
      | system content => rfl
  | round conversation content answers now =>
      exact settled_pushAll hdb conversation now
        (rounds_roundMessages content answers)
  | clear conversation =>
      refine ⟨consistent_clear conversation hdb.consistent, ?_⟩
      rw [exchange, rawRows_clear]
      split
      · exact ⟨[], .nil, rfl⟩
      · exact hdb.rounds
  | compact conversation cfg outcomes =>
      by_cases hother : conversation = other
      · subst hother
        exact settled_compaction sha256 hdb hevent.1 hevent.2
      · refine ⟨consistent_compaction sha256 hdb.consistent _ _ _, ?_⟩
        rw [exchange, rawRows_runCompaction_other sha256 hdb.consistent hother]
        exact hdb.rounds

/-! ## The assembled request -/

/-- The assembled items hold the calls and results of the raw rows. -/
theorem assemble_items {db : Db} {items : List ContextItem}
    (hitems : ∀ item ∈ items, db.Resolves item) {messages : List Message}
    (hreads : Reads (items.filterMap (rawRow db)) messages) :
    ∃ assembled, items.mapM (assembleItem db) = .ok assembled ∧
      assembled.filter Message.inRound = messages.filter Message.inRound := by
  induction items generalizing messages with
  | nil =>
      cases hreads
      exact ⟨[], rfl, rfl⟩
  | cons item items ih =>
      have htail := fun other hother =>
        hitems other (List.mem_cons_of_mem item hother)
      have hitem := hitems item List.mem_cons_self
      unfold Db.Resolves at hitem
      cases href : item.ref with
      | message id =>
          rw [href] at hitem
          obtain ⟨row, hfind, _⟩ := hitem
          have hraw : rawRow db item = some ⟨item.ordinal, row⟩ := by
            simp only [rawRow, href, hfind, Option.map_some]
          rw [List.filterMap_cons_some hraw] at hreads
          cases hreads with
          | @cons _ message _ messages hrow hrest =>
              obtain ⟨assembled, hassembled, hfilter⟩ := ih htail hrest
              have hhead : assembleItem db item = .ok message := by
                simp only [assembleItem, href, hfind]
                exact hrow
              refine ⟨message :: assembled, ?_, ?_⟩
              · rw [List.mapM_cons, hhead, hassembled]
                rfl
              · rw [List.filter_cons, List.filter_cons, hfilter]
      | summary id =>
          rw [href] at hitem
          obtain ⟨row, hfind⟩ := hitem
          have hraw : rawRow db item = none := by simp only [rawRow, href]
          rw [List.filterMap_cons_none hraw] at hreads
          obtain ⟨assembled, hassembled, hfilter⟩ := ih htail hreads
          have hhead : assembleItem db item = .ok (summaryMessage row) := by
            simp only [assembleItem, href, hfind]
          refine ⟨summaryMessage row :: assembled, ?_, ?_⟩
          · rw [List.mapM_cons, hhead, hassembled]
            rfl
          · rw [List.filter_cons_of_neg (by simp [summaryMessage,
              Message.inRound]), hfilter]

theorem Settled.assemble {db : Db} {conversation : ConversationId}
    (hdb : Settled db conversation) (jsonPath : String → Option String)
    (systemPrompt : String) :
    ∃ messages, assembleSync jsonPath db conversation systemPrompt =
      .ok messages ∧ Paired messages := by
  obtain ⟨raw, hreads, hrounds⟩ := hdb.rounds
  have hitems : ∀ item ∈ db.orderedItems conversation, db.Resolves item :=
    fun item hitem =>
      hdb.consistent.items item (Db.mem_orderedItems.mp hitem).1
  obtain ⟨assembled, hassembled, hfilter⟩ := assemble_items hitems hreads
  refine ⟨_, by rw [assembleSync, hassembled]; rfl, ?_⟩
  apply paired_of_filter
  rw [List.filter_cons_of_neg (by simp [Message.inRound]), hfilter]
  exact hrounds.paired.filter

/-- In every history of whole rounds whose cycles find a tail that starts
whole, the assembled request pairs its calls and results. -/
theorem assemble_paired (sha256 : List UInt8 → List UInt8)
    (exchanges : List Exchange)
    (hmeets : Run.Meets (exchange sha256) (cutFree sha256) Db.empty exchanges)
    (jsonPath : String → Option String) (conversation : ConversationId)
    (systemPrompt : String) :
    ∃ messages, assembleSync jsonPath
        (Run.run (exchange sha256) Db.empty exchanges) conversation
        systemPrompt = .ok messages ∧ Paired messages := by
  have hempty : Settled Db.empty conversation := by
    refine ⟨Db.consistent_empty, [], ?_, rfl⟩
    exact .nil
  have hstep : ∀ db event, Settled db conversation → cutFree sha256 db event →
      Settled (exchange sha256 db event) conversation :=
    fun db event hdb hevent => settled_exchange sha256 hdb hevent
  have hsettled := Run.invariant_of_meets hstep hempty hmeets
  exact hsettled.assemble jsonPath systemPrompt

/-! ## A tail that begins inside a round -/

/-- SHA-256 on the input that `cutRun` hashes. -/
def cutSha256 (bytes : List UInt8) : List UInt8 :=
  if bytes = utf8Bytes "ran the tests" ++ 124 :: toLeBytes 2 then
    [155, 80, 22, 129, 12, 44, 14, 208, 156, 196, 36, 185, 215, 202, 154,
      253, 21, 108, 193, 102, 228, 235, 204, 174, 252, 2, 159, 237, 243,
      223, 20, 88]
  else []

def testCall : ToolCall where
  id := "call_1"
  function := ⟨⟨"exec", by decide⟩, "{}"⟩

/-- A request, one round of one call, and a cycle with a tail of `count`. -/
def cutRun (count : ℕ) : List Exchange :=
  [.say 1 ⟨.user "run the tests", rfl⟩ none "2025-01-01 00:00:01",
   .round 1 "" [⟨testCall, "all passed", none⟩] "2025-01-01 00:00:02",
   .compact 1 ⟨count, 100, 2⟩ [⟨"ran the tests", .normal, 2, 3⟩]]

theorem assemble_paired_wholeTail :
    ∃ messages, assembleSync (fun _ => none)
        (Run.run (exchange cutSha256) Db.empty (cutRun 2)) 1 "" =
      .ok messages ∧ Paired messages :=
  assemble_paired cutSha256 (cutRun 2) (by decide) (fun _ => none) 1 ""

/-- A tail of one message keeps the result and summarizes its call. -/
theorem cutRun_unpaired :
    ∃ messages, assembleSync (fun _ => none)
        (Run.run (exchange cutSha256) Db.empty (cutRun 1)) 1 "" =
      .ok messages ∧ ¬ Paired messages := by
  have hfilter : (assembleSync (fun _ => none)
      (Run.run (exchange cutSha256) Db.empty (cutRun 1)) 1 "").toOption.map
        (List.filter Message.inRound) =
      some [.tool "call_1" "all passed"] := by decide +kernel
  cases hassembled : assembleSync (fun _ => none)
      (Run.run (exchange cutSha256) Db.empty (cutRun 1)) 1 "" with
  | error error => rw [hassembled] at hfilter; cases hfilter
  | ok messages =>
      rw [hassembled] at hfilter
      refine ⟨messages, rfl, fun hpaired => ?_⟩
      have hlist : messages.filter Message.inRound =
          [.tool "call_1" "all passed"] := Option.some.inj hfilter
      have hcalled := hpaired.filter.called [] "call_1" "all passed" [] hlist
      obtain ⟨_, _, hmem, _⟩ := hcalled
      cases hmem

end Kitaebot.Lcm
