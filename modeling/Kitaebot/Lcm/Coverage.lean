import Kitaebot.Lcm.Expansion

/-!
# What the context covers

Expanding the context of a conversation should give the messages pushed since
its last clear.  Leaf chunks are built from message items only while the write
deletes a whole ordinal range, so a summary between two messages of one chunk
is dropped.  The theorem states the runs in which no cycle finds such a
summary; the run after it loses one.
-/

namespace Kitaebot.Lcm

open OrderedTable

/-- Two neighbouring message items that one leaf chunk may take together:
neither is the pinned user message and their tokens fit the budget. -/
def mayShareChunk (cfg : LcmConfig) (pinned : Option ℕ) (left right : RawRow) :
    Bool :=
  decide (some left.ordinal ≠ pinned) && decide (some right.ordinal ≠ pinned) &&
    decide (left.row.tokenCount + right.row.tokenCount ≤ cfg.leafChunkTokens)

/-- A summary item stands between two message items. -/
def summaryBetween (db : Db) (conversation : ConversationId)
    (left right : RawRow) : Bool :=
  (db.orderedItems conversation).any fun item =>
    isSummaryItem item && decide (left.ordinal < item.ordinal) &&
      decide (item.ordinal < right.ordinal)

/-- No summary stands between two neighbouring messages outside the fresh tail
that one leaf chunk may take together. -/
def NoStraddledSummary (db : Db) (conversation : ConversationId)
    (cfg : LcmConfig) : Prop :=
  let raw := rawRows db conversation
  (eligibleRows cfg raw).IsChain fun left right =>
    mayShareChunk cfg (pinnedOrdinal raw) left right = true →
      summaryBetween db conversation left right = false

instance (db : Db) (conversation : ConversationId) (cfg : LcmConfig) :
    Decidable (NoStraddledSummary db conversation cfg) :=
  inferInstanceAs (Decidable (List.IsChain _ _))

/-- The condition on the compactions of one conversation. -/
def straddleFree (conversation : ConversationId) (db : Db) : Event → Prop
  | .compact target cfg _ =>
      target = conversation → NoStraddledSummary db conversation cfg
  | _ => True

instance (conversation : ConversationId) (db : Db) :
    (event : Event) → Decidable (straddleFree conversation db event)
  | .compact target cfg _ => inferInstanceAs
      (Decidable (target = conversation → NoStraddledSummary db conversation cfg))
  | .push .. => inferInstanceAs (Decidable True)
  | .clear _ => inferInstanceAs (Decidable True)
  | .openSession .. => inferInstanceAs (Decidable True)

/-! ## The messages pushed since the last clear -/

/-- The results that opening a session pushes. -/
def repairMessages (db : Db) (conversation : ConversationId) : List Message :=
  match danglingCalls db conversation with
  | .ok callIds => callIds.map fun callId => .tool callId interruptedToolCall
  | .error _ => []

/-- The log of one conversation after an event: pushes extend it and a clear
empties it. -/
def logStep (conversation : ConversationId) (db : Db) (log : List Message) :
    Event → List Message
  | .push target message _ _ =>
      if target = conversation then log ++ [message] else log
  | .compact .. => log
  | .clear target => if target = conversation then [] else log
  | .openSession name _ =>
      let (ensured, target) := ensureConversation db name
      if target = conversation then log ++ repairMessages ensured target else log

/-- The messages a run pushes to a conversation after its last clear. -/
def pushedSinceClear (sha256 : List UInt8 → List UInt8)
    (conversation : ConversationId) :
    Db → List Message → List Event → List Message
  | _, log, [] => log
  | db, log, event :: events =>
      pushedSinceClear sha256 conversation (step sha256 db event)
        (logStep conversation db log event) events

/-- The rows read back as the logged messages, in `seq` order. -/
structure Covers (rows : List MessageRow) (log : List Message) : Prop where
  messages : rows.map reconstructMessage = log.map fun message =>
    .ok (asStored message)
  order : Increasing MessageRow.seq rows

/-- The context of a conversation covers its log. -/
structure Covered (conversation : ConversationId) (db : Db)
    (log : List Message) : Prop where
  consistent : db.Consistent
  covers : Covers (coverage db conversation) log
  owned : coverage db conversation ⊆ db.conversationMessages conversation

/-! ## Pushes -/

theorem covered_push {db : Db} {conversation : ConversationId}
    {log : List Message} (hdb : Covered conversation db log)
    (target : ConversationId) (message : Message)
    (largeFile : Option LargeFileRow) (now : String) :
    Covered conversation (pushMessageSync db target message largeFile now)
      (if target = conversation then log ++ [message] else log) := by
  have hcoverage := coverage_push target message largeFile now hdb.consistent
    conversation
  have howned : ∀ row ∈ coverage db conversation,
      row ∈ (pushMessageSync db target message largeFile
        now).conversationMessages conversation := by
    intro row hrow
    rw [Db.conversationMessages, messages_push, List.filter_append]
    exact List.mem_append_left _ (hdb.owned hrow)
  refine ⟨consistent_push target message largeFile now hdb.consistent, ?_, ?_⟩
  · by_cases htarget : target = conversation
    · subst htarget
      rw [hcoverage, if_pos rfl, if_pos rfl]
      constructor
      · rw [List.map_append, List.map_append, hdb.covers.messages]
        simp only [pushedRow, List.map_cons, List.map_nil,
          reconstructMessage_messageRow]
      · refine List.pairwise_append.mpr
          ⟨hdb.covers.order, List.pairwise_singleton _ _, ?_⟩
        intro row hrow last hlast
        rw [List.mem_singleton.mp hlast]
        exact lt_nextKey MessageRow.seq (hdb.owned hrow)
    · rw [hcoverage, if_neg htarget, if_neg htarget, List.append_nil]
      exact hdb.covers
  · intro row hrow
    rw [hcoverage] at hrow
    rcases List.mem_append.mp hrow with hold | hnew
    · exact howned row hold
    · split at hnew
      · next htarget =>
          rw [List.mem_singleton.mp hnew, Db.conversationMessages,
            messages_push, List.filter_append]
          apply List.mem_append_right
          simp [pushedRow, messageRow, htarget]
      · simp at hnew

theorem covered_repair {db : Db} {conversation : ConversationId}
    {log : List Message} (hdb : Covered conversation db log)
    (target : ConversationId) (now : String) (callIds : List String) :
    Covered conversation (callIds.foldl (repairPush target now) db)
      (if target = conversation then
        log ++ callIds.map fun callId => .tool callId interruptedToolCall
        else log) := by
  induction callIds generalizing db log with
  | nil => simpa using hdb
  | cons callId callIds ih =>
      have hnext := ih (covered_push hdb target
        (.tool callId interruptedToolCall) none now)
      rw [List.foldl_cons, repairPush]
      by_cases htarget : target = conversation
      · simpa only [if_pos htarget, List.append_assoc, List.map_cons,
          List.singleton_append] using hnext
      · simpa only [if_neg htarget] using hnext

theorem covered_conversations {db : Db} {conversation : ConversationId}
    {log : List Message} (hdb : Covered conversation db log)
    (conversations : List Conversation) :
    Covered conversation { db with conversations } log := by
  have hcoverage := coverage_conversations db conversations conversation
  refine ⟨consistent_conversations hdb.consistent conversations, ?_, ?_⟩
  · rw [hcoverage]
    exact hdb.covers
  · rw [hcoverage]
    exact hdb.owned

theorem covered_openSession {db : Db} {conversation : ConversationId}
    {log : List Message} (hdb : Covered conversation db log)
    (name now : String) :
    Covered conversation (openSession db name now).1
      (let (ensured, target) := ensureConversation db name
      if target = conversation then log ++ repairMessages ensured target
      else log) := by
  have hensured : Covered conversation (ensureConversation db name).1 log := by
    unfold ensureConversation
    split
    · exact hdb
    · exact covered_conversations hdb _
  simp only [openSession, repairDanglingToolCalls, repairMessages]
  cases hcalls : danglingCalls (ensureConversation db name).1
      (ensureConversation db name).2 with
  | error error => simpa [bind, Except.bind] using hensured
  | ok callIds => exact covered_repair hensured _ now callIds

/-! ## Compactions -/

/-- A number between the first and last keys of a group that no neighbours
enclose is one of its keys. -/
theorem key_of_chain {Row : Type*} {key : Row → ℕ} {group : List Row}
    {value : ℕ}
    (hchain : group.IsChain fun left right =>
      ¬ (key left < value ∧ value < key right))
    (hne : group ≠ []) (hfirst : firstKey key group ≤ value)
    (hlast : value ≤ lastKey key group) : ∃ row ∈ group, key row = value := by
  induction group with
  | nil => exact absurd rfl hne
  | cons head tail ih =>
      rw [firstKey_cons] at hfirst
      by_cases hhead : key head = value
      · exact ⟨head, List.mem_cons_self, hhead⟩
      · cases tail with
        | nil =>
            have hkey : lastKey key [head] = key head := rfl
            omega
        | cons next rest =>
            rw [List.isChain_cons_cons] at hchain
            have hnext : key next ≤ value := by omega
            obtain ⟨row, hrow, hkey⟩ := ih hchain.2 (by simp) hnext
              (by simpa [lastKey] using hlast)
            exact ⟨row, List.mem_cons_of_mem _ hrow, hkey⟩

/-- Under the condition, the range of a loaded group holds messages only. -/
theorem leafRange_messages {db : Db} (hdb : db.Consistent)
    {conversation : ConversationId} {cfg : LcmConfig}
    (hstraddle : NoStraddledSummary db conversation cfg) {group : List RawRow}
    (hgroup : group ∈ loadLeafGroups db conversation cfg)
    {item : ContextItem} (hitem : item ∈ leafRange db conversation group) :
    isSummaryItem item = false := by
  by_contra hsummary
  rw [Bool.not_eq_false] at hsummary
  have hpending := leafPending_of_load hdb hgroup
  have hunpinned : ∀ raw ∈ group,
      some raw.ordinal ≠ pinnedOrdinal (rawRows db conversation) := by
    intro raw hraw
    have hflatten : raw ∈ (loadLeafGroups db conversation cfg).flatten :=
      List.mem_flatten.mpr ⟨group, hgroup, hraw⟩
    rw [loadLeafGroups_flatten] at hflatten
    simpa using (List.mem_filter.mp hflatten).2
  have hbudget := leafGroups_budget List.IsChain.nil (by simp) hgroup
  have hslice := hstraddle.infix (loadLeafGroups_slice hgroup)
  obtain ⟨hordered, hin⟩ := List.mem_filter.mp hitem
  rw [inRange_iff] at hin
  have hchain : group.IsChain fun left right =>
      ¬ (left.ordinal < item.ordinal ∧ item.ordinal < right.ordinal) := by
    rw [List.isChain_iff_forall_rel_of_append_cons_cons] at hbudget hslice ⊢
    intro left right before after hsplit hbetween
    have hmem : ∀ raw ∈ [left, right], raw ∈ group := by
      intro raw hraw
      rw [hsplit]
      refine List.mem_append_right before ?_
      rcases List.mem_cons.mp hraw with rfl | hright
      · exact List.mem_cons_self
      · rw [List.mem_singleton.mp hright]
        exact List.mem_cons_of_mem _ List.mem_cons_self
    have hshare : mayShareChunk cfg (pinnedOrdinal (rawRows db conversation))
        left right = true := by
      simp only [mayShareChunk, Bool.and_eq_true, decide_eq_true_eq]
      exact ⟨⟨hunpinned left (hmem left (by simp)),
        hunpinned right (hmem right (by simp))⟩, hbudget hsplit⟩
    have hnone := hslice hsplit hshare
    rw [summaryBetween, List.any_eq_false] at hnone
    apply hnone item hordered
    simp [hsummary, hbetween]
  obtain ⟨raw, hraw, hkey⟩ :=
    key_of_chain hchain hpending.nonempty hin.1 hin.2
  obtain ⟨other, hother, howner, hrow⟩ := mem_rawRows.mp (hpending.subset hraw)
  obtain rfl : other = item := by
    have hincreasing := hdb.increasing_items conversation
    refine List.inj_on_of_nodup_map hincreasing.nodup_map
      (Db.mem_orderedItems.mpr ⟨hother, howner⟩) hordered ?_
    rw [← rawRow_ordinal hrow, hkey]
  obtain ⟨href, _⟩ := rawRow_eq_some hrow
  simp [isSummaryItem, href] at hsummary

theorem coverage_leafWrite {db : Db} (hdb : db.Consistent)
    {target : ConversationId} {group : List RawRow}
    (hgroup : LeafPending db target group) {row : SummaryRow}
    (hrow : SummarizesGroup target group row)
    (hfresh : db.findSummary row.summaryId = none)
    (conversation : ConversationId)
    (hmessages : target = conversation →
      ∀ item ∈ leafRange db target group, isSummaryItem item = false) :
    coverage (db.withSummary row (group.map (·.row.messageId)) []
        (firstKey RawRow.ordinal group) (lastKey RawRow.ordinal group))
        conversation = coverage db conversation := by
  by_cases htarget : target = conversation
  · subst htarget
    have hexpand := expand_leafWrite hdb hgroup hrow hfresh
    rw [← hgroup.rows, ← flatMap_expandItem_messages db (hmessages rfl),
      hgroup.rows, leafRange, ← hrow.conversationId] at hexpand
    rw [← hrow.conversationId]
    exact coverage_withSummary hdb hfresh (hgroup.range_le hdb) hexpand
  · exact coverage_withSummary_other hdb hfresh
      (by rw [hrow.conversationId]; exact htarget)

theorem coverage_condensedWrite {db : Db} (hdb : db.Consistent)
    {target : ConversationId} {chunk : CondensedChunk}
    (hchunk : CondensedPending db target chunk) {row : SummaryRow}
    (hrow : SummarizesChunk target chunk row)
    (hfresh : db.findSummary row.summaryId = none)
    (conversation : ConversationId) :
    coverage (db.withSummary row [] (chunk.rows.map CondensedRow.summaryId)
        (firstKey CondensedRow.ordinal chunk.rows)
        (lastKey CondensedRow.ordinal chunk.rows))
        conversation = coverage db conversation := by
  by_cases htarget : target = conversation
  · subst htarget
    have hexpand := expand_condensedWrite hdb hchunk hrow hfresh
    rw [← flatMap_expandItem_summaries hchunk, condensedRange,
      ← hrow.conversationId] at hexpand
    rw [← hrow.conversationId]
    exact coverage_withSummary hdb hfresh (hchunk.range_le hdb) hexpand
  · exact coverage_withSummary_other hdb hfresh
      (by rw [hrow.conversationId]; exact htarget)

/-- What a cycle keeps of one conversation's coverage. -/
structure KeepsCoverage (before : Db) (conversation : ConversationId)
    (db : Db) : Prop where
  consistent : db.Consistent
  messages : db.messages = before.messages
  coverage : coverage db conversation = coverage before conversation

theorem coverage_compaction (sha256 : List UInt8 → List UInt8) {before : Db}
    (hbefore : before.Consistent) {conversation target : ConversationId}
    {cfg : LcmConfig} (outcomes : List EscalationOutcome)
    (hstraddle : target = conversation →
      NoStraddledSummary before conversation cfg) :
    KeepsCoverage before conversation
      (runCompaction sha256 before target cfg outcomes).1 := by
  apply runCompaction_preserves (P := KeepsCoverage before conversation)
    (Q := fun items => target = conversation →
      ∀ item ∈ items, isSummaryItem item = false)
  · exact fun db hdb => hdb.consistent
  · intro db group row hdb hgroup hrange hrow hfresh
    exact ⟨consistent_leafWrite hdb.consistent hgroup hfresh, hdb.messages,
      (coverage_leafWrite hdb.consistent hgroup hrow hfresh conversation
        hrange).trans hdb.coverage⟩
  · intro db chunk row hdb hchunk hrow hfresh
    exact ⟨consistent_condensedWrite hdb.consistent hchunk hfresh, hdb.messages,
      (coverage_condensedWrite hdb.consistent hchunk hrow hfresh
        conversation).trans hdb.coverage⟩
  · exact ⟨hbefore, rfl, rfl⟩
  · intro group hgroup htarget item hitem
    subst htarget
    exact leafRange_messages hbefore (hstraddle rfl) hgroup hitem

/-! ## Whole runs -/

theorem covered_step (sha256 : List UInt8 → List UInt8)
    {conversation : ConversationId} {db : Db} {log : List Message}
    (hdb : Covered conversation db log) {event : Event}
    (hevent : straddleFree conversation db event) :
    Covered conversation (step sha256 db event)
      (logStep conversation db log event) := by
  cases event with
  | push target message largeFile now =>
      exact covered_push hdb target message largeFile now
  | openSession name now => exact covered_openSession hdb name now
  | clear target =>
      have hcoverage := coverage_clear db target conversation
      refine ⟨consistent_clear target hdb.consistent, ?_, ?_⟩
      · change Covers (coverage (clear db target) conversation)
          (if target = conversation then [] else log)
        rw [hcoverage]
        split
        · exact ⟨rfl, List.Pairwise.nil⟩
        · exact hdb.covers
      · change coverage (clear db target) conversation ⊆ _
        rw [hcoverage]
        split
        · exact List.nil_subset _
        · exact hdb.owned
  | compact target cfg outcomes =>
      have hkeeps := coverage_compaction sha256 hdb.consistent outcomes hevent
      refine ⟨hkeeps.consistent, ?_, ?_⟩
      · rw [step, hkeeps.coverage]
        exact hdb.covers
      · rw [step, hkeeps.coverage, Db.conversationMessages, hkeeps.messages]
        exact hdb.owned

theorem covered_run (sha256 : List UInt8 → List UInt8)
    {conversation : ConversationId} {events : List Event} {db : Db}
    {log : List Message} (hdb : Covered conversation db log)
    (hmeets : Run.Meets (step sha256) (straddleFree conversation) db events) :
    Covered conversation (Run.run (step sha256) db events)
      (pushedSinceClear sha256 conversation db log events) := by
  induction events generalizing db log with
  | nil => exact hdb
  | cons event events ih =>
      exact ih (covered_step sha256 hdb hmeets.1) hmeets.2

/-- In every run whose cycles find no straddled summary, expanding the context
of a conversation gives the messages pushed since its last clear. -/
theorem coverage_of_straddleFree (sha256 : List UInt8 → List UInt8)
    (conversation : ConversationId) (events : List Event)
    (hmeets : Run.Meets (step sha256) (straddleFree conversation) Db.empty
      events) :
    Covers (coverage (history sha256 events) conversation)
      (pushedSinceClear sha256 conversation Db.empty [] events) := by
  have hempty : Covered conversation Db.empty [] :=
    ⟨Db.consistent_empty, ⟨rfl, List.Pairwise.nil⟩, by simp [coverage, Db.empty,
      Db.orderedItems, Db.conversationItems, orderBy]⟩
  exact (covered_run sha256 hempty hmeets).covers

/-! ## A straddled summary -/

/-- SHA-256 on the two inputs that `straddledRun` hashes. -/
def straddledSha256 (bytes : List UInt8) : List UInt8 :=
  if bytes = utf8Bytes "started" ++ 124 :: toLeBytes 2 then
    [43, 222, 161, 79, 33, 241, 133, 252, 216, 245, 88, 120, 193, 135, 238,
      99, 93, 117, 143, 38, 204, 167, 30, 232, 203, 202, 29, 50, 158, 248,
      181, 81]
  else if bytes =
      utf8Bytes "more" ++ 124 :: toLeBytes 1 ++ 124 :: toLeBytes 3 then
    [115, 73, 12, 254, 13, 55, 94, 237, 237, 2, 29, 111, 237, 53, 177, 246,
      90, 11, 49, 216, 34, 11, 22, 23, 83, 116, 57, 168, 201, 50, 207, 216]
  else []

def straddledConfig : LcmConfig where
  freshTailCount := 1
  leafChunkTokens := 100
  minCondensedFanout := 2

/-- The request is pinned while the work after it is summarized; then a newer
request moves the pin, and the next cycle takes the old request and the
message after the summary into one chunk. -/
def straddledRun : List Event :=
  [.openSession "main" "2025-01-01 00:00:00",
   .push 1 (.user "build it") none "2025-01-01 00:00:01",
   .push 1 (.assistant "started") none "2025-01-01 00:00:02",
   .push 1 (.assistant "still going") none "2025-01-01 00:00:03",
   .compact 1 straddledConfig [⟨"started", .normal, 2, 1⟩],
   .push 1 (.user "and test it") none "2025-01-01 00:00:04",
   .compact 1 straddledConfig [⟨"more", .normal, 5, 1⟩]]

theorem coverage_before_straddle :
    Covers (coverage (history straddledSha256 (straddledRun.take 6)) 1)
      (pushedSinceClear straddledSha256 1 Db.empty [] (straddledRun.take 6)) :=
  coverage_of_straddleFree straddledSha256 1 (straddledRun.take 6)
    (by decide)

/-- The second cycle drops the summary of the first. -/
theorem straddledRun_loses_message :
    ¬ Covers (coverage (history straddledSha256 straddledRun) 1)
      (pushedSinceClear straddledSha256 1 Db.empty [] straddledRun) := by
  intro hcovers
  have hlength := congrArg List.length hcovers.messages
  rw [List.length_map, List.length_map] at hlength
  exact absurd hlength (by decide +kernel)

end Kitaebot.Lcm
