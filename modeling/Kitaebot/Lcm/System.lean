import Kitaebot.Core.Run
import Kitaebot.Lcm.Passes

/-!
# The LCM store as an event system

Every write of the engine is one of four events: a message is pushed, a
conversation is compacted, its context is cleared, or a session is opened (at
start or by a switch), which creates its conversation and repairs its tail.
-/

namespace Kitaebot.Lcm

inductive Event where
  | push (conversation : ConversationId) (message : Message)
      (largeFile : Option LargeFileRow) (now : String)
  | compact (conversation : ConversationId) (cfg : LcmConfig)
      (outcomes : List EscalationOutcome)
  | clear (conversation : ConversationId)
  | openSession (name : String) (now : String)
  deriving DecidableEq, Repr

/-- Look up or create the conversation and repair its tail; a failed repair
leaves the store as `ensure_conversation` left it. -/
def openSession (db : Db) (name now : String) : Db × ConversationId :=
  let (db, conversation) := ensureConversation db name
  match repairDanglingToolCalls db conversation now with
  | .ok repaired => (repaired, conversation)
  | .error _ => (db, conversation)

def step (sha256 : List UInt8 → List UInt8) (db : Db) : Event → Db
  | .push conversation message largeFile now =>
      pushMessageSync db conversation message largeFile now
  | .compact conversation cfg outcomes =>
      (runCompaction sha256 db conversation cfg outcomes).1
  | .clear conversation => clear db conversation
  | .openSession name now => (openSession db name now).1

/-- The database after a run of events on a fresh store. -/
def history (sha256 : List UInt8 → List UInt8) (events : List Event) : Db :=
  Run.run (step sha256) Db.empty events

/-! ## Opening a session -/

/-- The repair of one call. -/
def repairPush (conversation : ConversationId) (now : String) (db : Db)
    (callId : String) : Db :=
  pushMessageSync db conversation (.tool callId interruptedToolCall) none now

/-- Opening a session keeps what a new conversation row and the repair pushes
keep. -/
theorem openSession_preserves {P : Db → Prop}
    (hensure : ∀ db conversations, P db → P { db with conversations })
    (hpush : ∀ db conversation callId now, P db →
      P (repairPush conversation now db callId))
    {db : Db} (hdb : P db) (name now : String) :
    P (openSession db name now).1 := by
  have hensured : P (ensureConversation db name).1 := by
    unfold ensureConversation
    split
    · exact hdb
    · exact hensure db _ hdb
  have hrepair : ∀ (callIds : List String) (conversation : ConversationId)
      (db : Db), P db →
      P (callIds.foldl (repairPush conversation now) db) := by
    intro callIds conversation
    induction callIds with
    | nil => exact fun _ hdb => hdb
    | cons callId callIds ih =>
        exact fun db hdb => ih _ (hpush db conversation callId now hdb)
  simp only [openSession, repairDanglingToolCalls]
  cases hcalls : danglingCalls (ensureConversation db name).1
      (ensureConversation db name).2 with
  | error error => exact hensured
  | ok callIds => exact hrepair callIds _ _ hensured

/-! ## Consistency of every reachable store -/

theorem LeafPending.sources {db : Db} {conversation : ConversationId}
    {group : List RawRow} (hgroup : LeafPending db conversation group) :
    ∀ raw ∈ group, db.findMessage raw.row.messageId = some raw.row := by
  intro raw hraw
  obtain ⟨item, _, _, hrow⟩ := mem_rawRows.mp (hgroup.subset hraw)
  exact (rawRow_eq_some hrow).2

theorem CondensedPending.children {db : Db} {conversation : ConversationId}
    {chunk : CondensedChunk} (hchunk : CondensedPending db conversation chunk) :
    ∀ row ∈ chunk.rows, ∃ item ∈ condensedRange db conversation chunk,
      ∃ summary, db.findSummary row.summaryId = some summary ∧
        item.ref = .summary row.summaryId ∧
        row = condensedRow item.ordinal summary := by
  intro row hrow
  have hentry : some row ∈
      (condensedRange db conversation chunk).map (condensedRowOf db) := by
    rw [hchunk.rows]
    exact List.mem_map.mpr ⟨row, hrow, rfl⟩
  obtain ⟨item, hitem, hrowOf⟩ := List.mem_map.mp hentry
  obtain ⟨summary, hfind, href, heq⟩ := condensedRowOf_eq_some hrowOf
  exact ⟨item, hitem, summary, hfind, href, heq⟩

theorem consistent_conversations {db : Db} (hdb : db.Consistent)
    (conversations : List Conversation) :
    ({ db with conversations } : Db).Consistent :=
  ⟨hdb.messageIds, hdb.summaryIds, hdb.ordinals, hdb.refs, hdb.items,
    hdb.sourceLinks, hdb.parentLinks, hdb.seqs⟩

theorem consistent_leafWrite {db : Db} (hdb : db.Consistent)
    {conversation : ConversationId} {group : List RawRow}
    (hgroup : LeafPending db conversation group) {row : SummaryRow}
    (hfresh : db.findSummary row.summaryId = none) :
    (db.withSummary row (group.map (·.row.messageId)) []
      (OrderedTable.firstKey RawRow.ordinal group)
      (OrderedTable.lastKey RawRow.ordinal group)).Consistent := by
  apply consistent_withSummary hdb hfresh (hgroup.range_le hdb)
  · intro source hsource
    obtain ⟨raw, hraw, rfl⟩ := List.mem_map.mp hsource
    exact ⟨raw.row, hgroup.sources raw hraw⟩
  · simp

theorem consistent_condensedWrite {db : Db} (hdb : db.Consistent)
    {conversation : ConversationId} {chunk : CondensedChunk}
    (hchunk : CondensedPending db conversation chunk) {row : SummaryRow}
    (hfresh : db.findSummary row.summaryId = none) :
    (db.withSummary row [] (chunk.rows.map CondensedRow.summaryId)
      (OrderedTable.firstKey CondensedRow.ordinal chunk.rows)
      (OrderedTable.lastKey CondensedRow.ordinal chunk.rows)).Consistent := by
  apply consistent_withSummary hdb hfresh (hchunk.range_le hdb)
  · simp
  · intro child hchild
    obtain ⟨row, hrow, rfl⟩ := List.mem_map.mp hchild
    obtain ⟨_, _, summary, hfind, _, _⟩ := hchunk.children row hrow
    exact ⟨summary, hfind⟩

theorem consistent_compaction (sha256 : List UInt8 → List UInt8) {db : Db}
    (hdb : db.Consistent) (conversation : ConversationId) (cfg : LcmConfig)
    (outcomes : List EscalationOutcome) :
    (runCompaction sha256 db conversation cfg outcomes).1.Consistent :=
  runCompaction_preserves (P := Db.Consistent) (Q := fun _ => True) sha256 cfg
    (fun _ hdb => hdb)
    (fun _ _ _ hdb hgroup _ _ hfresh => consistent_leafWrite hdb hgroup hfresh)
    (fun _ _ _ hdb hchunk _ hfresh =>
      consistent_condensedWrite hdb hchunk hfresh)
    outcomes hdb (fun _ _ => trivial)

theorem consistent_step (sha256 : List UInt8 → List UInt8) (db : Db)
    (event : Event) (hdb : db.Consistent) : (step sha256 db event).Consistent := by
  cases event with
  | push conversation message largeFile now =>
      exact consistent_push conversation message largeFile now hdb
  | compact conversation cfg outcomes =>
      exact consistent_compaction sha256 hdb conversation cfg outcomes
  | clear conversation => exact consistent_clear conversation hdb
  | openSession name now =>
      apply openSession_preserves (P := Db.Consistent) _ _ hdb
      · intro db conversations hdb
        exact consistent_conversations hdb conversations
      · intro db conversation callId now hdb
        exact consistent_push conversation _ none now hdb

theorem consistent_history (sha256 : List UInt8 → List UInt8)
    (events : List Event) : (history sha256 events).Consistent :=
  Run.invariant_run (consistent_step sha256) Db.consistent_empty events

end Kitaebot.Lcm
