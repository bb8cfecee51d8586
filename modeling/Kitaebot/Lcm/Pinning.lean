import Kitaebot.Lcm.System

/-!
# The pinned request and the fresh tail

The newest user message and the newest message items stay raw through a
compaction cycle, wherever the cycle stops.
-/

namespace Kitaebot.Lcm

open OrderedTable

/-- The message is the user message of highest `seq` in its conversation. -/
def isNewestUser (db : Db) (conversation : ConversationId) (id : MessageId) :
    Bool :=
  (db.conversationMessages conversation).any fun row =>
    row.messageId == id && row.role == .user &&
      (db.conversationMessages conversation).all fun other =>
        !(other.role == .user) || decide (other.seq ≤ row.seq)

/-- The message items of a conversation, by ordinal. -/
def messageItems (db : Db) (conversation : ConversationId) : List ContextItem :=
  (db.orderedItems conversation).filter fun item => !isSummaryItem item

/-- The last `count` message items. -/
def freshTail (db : Db) (conversation : ConversationId) (count : ℕ) :
    List ContextItem :=
  (messageItems db conversation).drop
    ((messageItems db conversation).length - count)

/-- What a cycle must leave raw: the newest user message and the fresh tail. -/
def protectedItems (db : Db) (conversation : ConversationId)
    (freshTailCount : ℕ) : List ContextItem :=
  (messageItems db conversation).filter fun item =>
    (match item.ref with
      | .message id => isNewestUser db conversation id
      | .summary _ => false) ||
    (freshTail db conversation freshTailCount).contains item

/-! ## Message items and raw rows -/

theorem isSummaryItem_eq {item : ContextItem} :
    isSummaryItem item = true ↔ ∃ id, item.ref = .summary id := by
  unfold isSummaryItem
  cases item.ref with
  | message id => simp
  | summary id => simp

/-- A message item that resolves has a raw row; a summary item has none. -/
theorem Db.Consistent.rawRow_isSome {db : Db} (hdb : db.Consistent)
    {item : ContextItem} (hitem : item ∈ db.contextItems) :
    (rawRow db item).isSome = !isSummaryItem item := by
  have hresolves := hdb.items item hitem
  unfold Db.Resolves at hresolves
  cases href : item.ref with
  | message id =>
      rw [href] at hresolves
      obtain ⟨row, hfind, _⟩ := hresolves
      simp [rawRow, isSummaryItem, href, hfind]
  | summary id => simp [rawRow, isSummaryItem, href]

/-- The message items carry the ordinals of the raw rows. -/
theorem Db.Consistent.messageItems_ordinals {db : Db} (hdb : db.Consistent)
    (conversation : ConversationId) :
    (messageItems db conversation).map ContextItem.ordinal =
      (rawRows db conversation).map RawRow.ordinal := by
  have hitems : ∀ item ∈ db.orderedItems conversation,
      item ∈ db.contextItems := fun item hitem => (Db.mem_orderedItems.mp hitem).1
  unfold messageItems rawRows
  generalize db.orderedItems conversation = items at hitems
  induction items with
  | nil => rfl
  | cons item items ih =>
      have hsome := hdb.rawRow_isSome (hitems item List.mem_cons_self)
      have htail := ih fun other hother =>
        hitems other (List.mem_cons_of_mem _ hother)
      cases hraw : rawRow db item with
      | none =>
          rw [hraw] at hsome
          rw [List.filter_cons_of_neg (by simp [← hsome]),
            List.filterMap_cons_none hraw, htail]
      | some raw =>
          rw [hraw] at hsome
          rw [List.filter_cons_of_pos (by simp [← hsome]),
            List.filterMap_cons_some hraw, List.map_cons, List.map_cons, htail,
            rawRow_ordinal hraw]

theorem Db.Consistent.messageItems_length {db : Db} (hdb : db.Consistent)
    (conversation : ConversationId) :
    (messageItems db conversation).length =
      (rawRows db conversation).length := by
  simpa using congrArg List.length (hdb.messageItems_ordinals conversation)

/-! ## No leaf group holds a protected item -/

/-- An eligible row is not an item of the fresh tail. -/
theorem eligible_not_fresh {db : Db} (hdb : db.Consistent)
    {conversation : ConversationId} {cfg : LcmConfig} {raw : RawRow}
    (hraw : raw ∈ eligibleRows cfg (rawRows db conversation))
    {item : ContextItem}
    (hitem : item ∈ freshTail db conversation cfg.freshTailCount) :
    raw.ordinal ≠ item.ordinal := by
  have hordinals := hdb.messageItems_ordinals conversation
  have hlength := hdb.messageItems_length conversation
  have hincreasing := hdb.increasing_rawRows conversation
  rw [freshTail, hlength] at hitem
  have hordinal : item.ordinal ∈
      ((rawRows db conversation).drop
        ((rawRows db conversation).length - cfg.freshTailCount)).map
          RawRow.ordinal := by
    rw [List.map_drop, ← hordinals, ← List.map_drop]
    exact List.mem_map.mpr ⟨item, hitem, rfl⟩
  obtain ⟨other, hother, hsame⟩ := List.mem_map.mp hordinal
  rw [← List.take_append_drop
    ((rawRows db conversation).length - cfg.freshTailCount)
    (rawRows db conversation), Increasing, List.pairwise_append] at hincreasing
  have hlt := hincreasing.2.2 raw hraw other hother
  omega

/-- The raw row of the newest user message has the pinned ordinal. -/
theorem newestUser_pinned {db : Db} (hdb : db.Consistent)
    {conversation : ConversationId} {raw : RawRow}
    (hraw : raw ∈ rawRows db conversation)
    (hnewest : isNewestUser db conversation raw.row.messageId = true) :
    pinnedOrdinal (rawRows db conversation) = some raw.ordinal := by
  simp only [isNewestUser, List.any_eq_true, Bool.and_eq_true, beq_iff_eq,
    List.all_eq_true, Bool.or_eq_true, Bool.not_eq_true', beq_eq_false_iff_ne,
    decide_eq_true_eq] at hnewest
  obtain ⟨row, hrow, ⟨hid, hrole⟩, hhighest⟩ := hnewest
  have hmessages : row ∈ db.messages := (List.mem_filter.mp hrow).1
  have hrawRow := hdb.rawRow_mem hraw
  obtain rfl : raw.row = row := by
    have hfound := hdb.findMessage_eq (List.mem_filter.mp hrawRow).1
    have hfound' := hdb.findMessage_eq hmessages
    rw [hid, hfound] at hfound'
    exact Option.some.inj hfound'
  rw [pinnedOrdinal, List.max?_eq_some_iff]
  constructor
  · exact List.mem_map.mpr
      ⟨raw, List.mem_filter.mpr ⟨hraw, by simpa using hrole⟩, rfl⟩
  · intro ordinal hordinal
    obtain ⟨other, hother, rfl⟩ := List.mem_map.mp hordinal
    obtain ⟨hotherRaw, hotherRole⟩ := List.mem_filter.mp hother
    by_contra hlt
    have hseq := (hdb.increasing_rawRows conversation).lt_of_lt
      (hdb.seqs conversation) hraw hotherRaw (not_le.mp hlt)
    rcases hhighest other.row (hdb.rawRow_mem hotherRaw) with hne | hle
    · exact hne (by simpa using hotherRole)
    · exact absurd hseq (not_lt.mpr hle)

/-- The ordinal range of a loaded group holds no protected item. -/
theorem leafRange_unprotected {db : Db} (hdb : db.Consistent)
    {conversation : ConversationId} {cfg : LcmConfig} {group : List RawRow}
    (hgroup : group ∈ loadLeafGroups db conversation cfg) {item : ContextItem}
    (hitem : item ∈ leafRange db conversation group) :
    item ∉ protectedItems db conversation cfg.freshTailCount := by
  intro hprotected
  obtain ⟨hmessageItem, hwhy⟩ := List.mem_filter.mp hprotected
  obtain ⟨hordered, hnotSummary⟩ := List.mem_filter.mp hmessageItem
  have hsome := hdb.rawRow_isSome (Db.mem_orderedItems.mp hordered).1
  rw [hnotSummary] at hsome
  obtain ⟨raw, hraw⟩ := Option.isSome_iff_exists.mp hsome
  have hpending := leafPending_of_load hdb hgroup
  have hmem : raw ∈ group := by
    rw [← hpending.rows]
    exact List.mem_filterMap.mpr ⟨item, hitem, hraw⟩
  have hflatten : raw ∈ (loadLeafGroups db conversation cfg).flatten :=
    List.mem_flatten.mpr ⟨group, hgroup, hmem⟩
  rw [loadLeafGroups_flatten] at hflatten
  obtain ⟨heligible, hunpinned⟩ := List.mem_filter.mp hflatten
  rcases Bool.or_eq_true _ _ |>.mp hwhy with hnewest | hfresh
  · obtain ⟨href, _⟩ := rawRow_eq_some hraw
    rw [href] at hnewest
    have hpinned := newestUser_pinned hdb (hpending.subset hmem) hnewest
    simp [hpinned] at hunpinned
  · exact eligible_not_fresh hdb heligible (by simpa using hfresh)
      (rawRow_ordinal hraw)

/-! ## The cycle -/

/-- What a cycle that started at `before` keeps. -/
structure KeepsRaw (before : Db) (conversation : ConversationId)
    (freshTailCount : ℕ) (db : Db) : Prop where
  consistent : db.Consistent
  messages : db.messages = before.messages
  kept : ∀ item ∈ protectedItems before conversation freshTailCount,
    item ∈ db.contextItems
  added : ∀ item ∈ db.contextItems,
    item ∈ before.contextItems ∨ isSummaryItem item = true

/-- A write whose range holds no protected item keeps them all. -/
theorem KeepsRaw.withSummary {before db : Db} {conversation : ConversationId}
    {freshTailCount : ℕ}
    (hdb : KeepsRaw before conversation freshTailCount db) {row : SummaryRow}
    {sources : List MessageId} {children : List SummaryId} {low high : ℕ}
    (hconsistent :
      (db.withSummary row sources children low high).Consistent)
    (hrange : ∀ item ∈ db.rangeItems row.conversationId low high,
      item ∉ protectedItems before conversation freshTailCount) :
    KeepsRaw before conversation freshTailCount
      (db.withSummary row sources children low high) where
  consistent := hconsistent
  messages := hdb.messages
  kept := by
    intro item hitem
    exact mem_contextItems_withSummary.mpr
      (.inl ⟨hdb.kept item hitem, fun hin => hrange item hin hitem⟩)
  added := by
    intro item hitem
    rcases mem_contextItems_withSummary.mp hitem with ⟨hold, _⟩ | rfl
    · exact hdb.added item hold
    · exact .inr rfl

theorem condensedRange_summaries {db : Db} {conversation : ConversationId}
    {chunk : CondensedChunk} (hchunk : CondensedPending db conversation chunk)
    {item : ContextItem} (hitem : item ∈ condensedRange db conversation chunk) :
    isSummaryItem item = true := by
  have hentry : condensedRowOf db item ∈ chunk.rows.map some := by
    rw [← hchunk.rows]
    exact List.mem_map.mpr ⟨item, hitem, rfl⟩
  obtain ⟨row, _, hrow⟩ := List.mem_map.mp hentry
  obtain ⟨_, _, href, _⟩ := condensedRowOf_eq_some hrow.symm
  exact isSummaryItem_eq.mpr ⟨_, href⟩

theorem protected_not_summary {db : Db} {conversation : ConversationId}
    {freshTailCount : ℕ} {item : ContextItem}
    (hitem : item ∈ protectedItems db conversation freshTailCount) :
    isSummaryItem item = false := by
  have hmessage := (List.mem_filter.mp (List.mem_filter.mp hitem).1).2
  simpa using hmessage

theorem keepsRaw_compaction (sha256 : List UInt8 → List UInt8) {before : Db}
    (hbefore : before.Consistent) (conversation : ConversationId)
    (cfg : LcmConfig) (outcomes : List EscalationOutcome) :
    KeepsRaw before conversation cfg.freshTailCount
      (runCompaction sha256 before conversation cfg outcomes).1 := by
  apply runCompaction_preserves
    (P := KeepsRaw before conversation cfg.freshTailCount)
    (Q := fun items => ∀ item ∈ items,
      item ∉ protectedItems before conversation cfg.freshTailCount)
  · exact fun db hdb => hdb.consistent
  · intro db group row hdb hgroup hrange hrow hfresh
    apply hdb.withSummary (consistent_leafWrite hdb.consistent hgroup hfresh)
    rw [hrow.conversationId]
    exact hrange
  · intro db chunk row hdb hchunk hrow hfresh
    apply hdb.withSummary
      (consistent_condensedWrite hdb.consistent hchunk hfresh)
    rw [hrow.conversationId]
    intro item hitem hprotected
    have hsummary := condensedRange_summaries hchunk hitem
    rw [protected_not_summary hprotected] at hsummary
    cases hsummary
  · constructor
    · exact hbefore
    · rfl
    · intro item hitem
      exact (Db.mem_orderedItems.mp
        (List.mem_filter.mp (List.mem_filter.mp hitem).1).1).1
    · exact fun item hitem => .inl hitem
  · intro group hgroup item hitem
    exact leafRange_unprotected hbefore hgroup hitem

theorem assembleItem_messages {before after : Db}
    (hmessages : after.messages = before.messages) {item : ContextItem}
    (hitem : isSummaryItem item = false) :
    assembleItem after item = assembleItem before item := by
  cases href : item.ref with
  | message id => simp only [assembleItem, href, Db.findMessage, hmessages]
  | summary id => simp [isSummaryItem, href] at hitem

/-- From every reachable store, a cycle leaves the newest user message and the
fresh tail as raw items with their content and in their order, and adds only
summaries, however far it gets. -/
theorem compaction_keeps_pin_and_tail (sha256 : List UInt8 → List UInt8)
    (events : List Event) (conversation : ConversationId) (cfg : LcmConfig)
    (outcomes : List EscalationOutcome) :
    let before := history sha256 events
    let after := (runCompaction sha256 before conversation cfg outcomes).1
    (protectedItems before conversation cfg.freshTailCount).Sublist
        (after.orderedItems conversation) ∧
      (∀ item ∈ protectedItems before conversation cfg.freshTailCount,
        isSummaryItem item = false ∧
          assembleItem after item = assembleItem before item) ∧
      ∀ item ∈ after.contextItems,
        item ∈ before.contextItems ∨ isSummaryItem item = true := by
  intro before after
  have hbefore : before.Consistent := consistent_history sha256 events
  have hafter := keepsRaw_compaction sha256 hbefore conversation cfg outcomes
  have hordered : ∀ item ∈
      protectedItems before conversation cfg.freshTailCount,
      item ∈ before.orderedItems conversation := fun item hitem =>
    (List.mem_filter.mp (List.mem_filter.mp hitem).1).1
  refine ⟨?_, ?_, hafter.added⟩
  · have hprotected : Increasing ContextItem.ordinal
        (protectedItems before conversation cfg.freshTailCount) :=
      ((hbefore.increasing_items conversation).filter _).filter _
    apply hprotected.sublist_of_subset
      (hafter.consistent.increasing_items conversation)
    intro item hitem
    exact Db.mem_orderedItems.mpr ⟨hafter.kept item hitem,
      (Db.mem_orderedItems.mp (hordered item hitem)).2⟩
  · intro item hitem
    have hmessage := protected_not_summary hitem
    exact ⟨hmessage, assembleItem_messages hafter.messages hmessage⟩

end Kitaebot.Lcm
