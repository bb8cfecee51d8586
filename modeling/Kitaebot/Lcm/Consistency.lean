import Kitaebot.Lcm.Compaction

/-!
# Consistency of the LCM database

What the keys and references of the schema promise, and how the ordered
context of a conversation changes under the three kinds of write: an ingested
message, a clear, and a summary that replaces an ordinal range.
-/

namespace Kitaebot.Lcm

open OrderedTable

/-- The row a context item refers to exists; a message item stays in the
conversation of its message. -/
def Db.Resolves (db : Db) (item : ContextItem) : Prop :=
  match item.ref with
  | .message id => ∃ row, db.findMessage id = some row ∧
      row.conversationId = item.conversationId
  | .summary id => ∃ row, db.findSummary id = some row

/-- Keys are unique, references resolve, and the message items of a
conversation are in `seq` order. -/
structure Db.Consistent (db : Db) : Prop where
  messageIds : (db.messages.map MessageRow.messageId).Nodup
  summaryIds : (db.summaries.map SummaryRow.summaryId).Nodup
  ordinals : ∀ conversation,
    ((db.conversationItems conversation).map ContextItem.ordinal).Nodup
  refs : (db.contextItems.map ContextItem.ref).Nodup
  items : ∀ item ∈ db.contextItems, db.Resolves item
  sourceLinks : ∀ link ∈ db.summaryMessages,
    (∃ row, db.findSummary link.summaryId = some row) ∧
      ∃ row, db.findMessage link.messageId = some row
  parentLinks : ∀ link ∈ db.summaryParents,
    (∃ row, db.findSummary link.summaryId = some row) ∧
      ∃ row, db.findSummary link.parentSummaryId = some row
  seqs : ∀ conversation,
    Increasing (fun raw => raw.row.seq) (rawRows db conversation)

theorem Db.consistent_empty : Db.empty.Consistent := by
  constructor <;> simp [Db.empty, Db.conversationItems, rawRows,
    Db.orderedItems, orderBy, Increasing]

/-! ## Lookups -/

theorem Db.mem_of_findMessage {db : Db} {id : MessageId} {row : MessageRow}
    (hfind : db.findMessage id = some row) :
    row ∈ db.messages ∧ row.messageId = id := by
  have hid := List.find?_some hfind
  exact ⟨List.mem_of_find?_eq_some hfind, by simpa using hid⟩

theorem Db.mem_of_findSummary {db : Db} {id : SummaryId} {row : SummaryRow}
    (hfind : db.findSummary id = some row) :
    row ∈ db.summaries ∧ row.summaryId = id := by
  have hid := List.find?_some hfind
  exact ⟨List.mem_of_find?_eq_some hfind, by simpa using hid⟩

theorem find?_eq_of_nodup {Row Key : Type*} [BEq Key] [LawfulBEq Key]
    {key : Row → Key} {rows : List Row} {row : Row}
    (hnodup : (rows.map key).Nodup) (hrow : row ∈ rows) :
    rows.find? (fun other => key other == key row) = some row := by
  induction rows with
  | nil => simp at hrow
  | cons head tail ih =>
      obtain ⟨hhead, htail⟩ := List.nodup_cons.mp hnodup
      by_cases hkey : key head = key row
      · have hrowHead : row = head := by
          rcases List.mem_cons.mp hrow with heq | hmem
          · exact heq
          · exact absurd (List.mem_map.mpr ⟨row, hmem, hkey.symm⟩) hhead
        subst hrowHead
        simp
      · have hmem : row ∈ tail := by
          rcases List.mem_cons.mp hrow with rfl | hmem
          · exact absurd rfl hkey
          · exact hmem
        rw [List.find?_cons_of_neg (by simpa using hkey)]
        exact ih htail hmem

theorem Db.Consistent.findMessage_eq {db : Db} (hdb : db.Consistent)
    {row : MessageRow} (hrow : row ∈ db.messages) :
    db.findMessage row.messageId = some row :=
  find?_eq_of_nodup hdb.messageIds hrow

theorem Db.Consistent.findSummary_eq {db : Db} (hdb : db.Consistent)
    {row : SummaryRow} (hrow : row ∈ db.summaries) :
    db.findSummary row.summaryId = some row :=
  find?_eq_of_nodup hdb.summaryIds hrow

/-- Lookups that succeed keep their row. -/
structure Db.Extends (before after : Db) : Prop where
  messages : ∀ {id row}, before.findMessage id = some row →
    after.findMessage id = some row
  summaries : ∀ {id row}, before.findSummary id = some row →
    after.findSummary id = some row

theorem Db.extends_of_append {before after : Db} {messages : List MessageRow}
    {summaries : List SummaryRow}
    (hmessages : after.messages = before.messages ++ messages)
    (hsummaries : after.summaries = before.summaries ++ summaries) :
    before.Extends after := by
  constructor
  · intro id row hfind
    rw [Db.findMessage] at hfind
    rw [Db.findMessage, hmessages, List.find?_append, hfind, Option.some_or]
  · intro id row hfind
    rw [Db.findSummary] at hfind
    rw [Db.findSummary, hsummaries, List.find?_append, hfind, Option.some_or]

theorem Db.Extends.resolves {before after : Db} (hext : before.Extends after)
    {item : ContextItem} (hitem : before.Resolves item) :
    after.Resolves item := by
  unfold Db.Resolves at hitem ⊢
  cases hitem' : item.ref with
  | message id =>
      rw [hitem'] at hitem
      obtain ⟨row, hfind, hconversation⟩ := hitem
      exact ⟨row, hext.messages hfind, hconversation⟩
  | summary id =>
      rw [hitem'] at hitem
      obtain ⟨row, hfind⟩ := hitem
      exact ⟨row, hext.summaries hfind⟩

/-- The raw row of an item that resolves is kept by an extension. -/
theorem Db.Extends.rawRow_eq {before after : Db} (hext : before.Extends after)
    {item : ContextItem} (hitem : before.Resolves item) :
    rawRow after item = rawRow before item := by
  unfold Db.Resolves at hitem
  cases hitem' : item.ref with
  | message id =>
      rw [hitem'] at hitem
      obtain ⟨row, hfind, _⟩ := hitem
      simp only [rawRow, hitem', hfind, hext.messages hfind]
  | summary id => simp only [rawRow, hitem']

@[simp]
theorem Db.mem_conversationItems {db : Db} {conversation : ConversationId}
    {item : ContextItem} :
    item ∈ db.conversationItems conversation ↔
      item ∈ db.contextItems ∧ item.conversationId = conversation := by
  simp [Db.conversationItems]

@[simp]
theorem Db.mem_orderedItems {db : Db} {conversation : ConversationId}
    {item : ContextItem} :
    item ∈ db.orderedItems conversation ↔
      item ∈ db.contextItems ∧ item.conversationId = conversation := by
  simp [Db.orderedItems]

/-- Distinct items refer to distinct rows. -/
theorem Db.Consistent.eq_of_ref {db : Db} (hdb : db.Consistent)
    {left right : ContextItem} (hleft : left ∈ db.contextItems)
    (hright : right ∈ db.contextItems) (href : left.ref = right.ref) :
    left = right :=
  List.inj_on_of_nodup_map hdb.refs hleft hright href

theorem Db.Consistent.increasing_items {db : Db} (hdb : db.Consistent)
    (conversation : ConversationId) :
    Increasing ContextItem.ordinal (db.orderedItems conversation) :=
  increasing_orderBy (hdb.ordinals conversation)

theorem rawRow_ordinal {db : Db} {item : ContextItem} {raw : RawRow}
    (hraw : rawRow db item = some raw) : raw.ordinal = item.ordinal := by
  unfold rawRow at hraw
  cases hitem : item.ref with
  | message id =>
      rw [hitem] at hraw
      obtain ⟨row, _, rfl⟩ := Option.map_eq_some_iff.mp hraw
      rfl
  | summary id => simp [hitem] at hraw

theorem rawRow_eq_some {db : Db} {item : ContextItem} {raw : RawRow}
    (hraw : rawRow db item = some raw) :
    item.ref = .message raw.row.messageId ∧
      db.findMessage raw.row.messageId = some raw.row := by
  unfold rawRow at hraw
  cases hitem : item.ref with
  | message id =>
      rw [hitem] at hraw
      obtain ⟨row, hfind, rfl⟩ := Option.map_eq_some_iff.mp hraw
      obtain ⟨_, rfl⟩ := Db.mem_of_findMessage hfind
      exact ⟨rfl, hfind⟩
  | summary id => simp [hitem] at hraw

/-- Filtering by ordinal commutes with joining items and messages. -/
theorem filterMap_rawRow_filter (db : Db) (keep : ℕ → Bool)
    (items : List ContextItem) :
    (items.filter fun item => keep item.ordinal).filterMap (rawRow db) =
      (items.filterMap (rawRow db)).filter fun raw => keep raw.ordinal := by
  rw [List.filterMap_filter, List.filter_filterMap]
  congr 1
  funext item
  cases hraw : rawRow db item with
  | none => simp
  | some raw =>
      rw [← rawRow_ordinal hraw]
      simp [Option.filter]

theorem increasing_filterMap_rawRow {db : Db} {items : List ContextItem}
    (hitems : Increasing ContextItem.ordinal items) :
    Increasing RawRow.ordinal (items.filterMap (rawRow db)) := by
  refine List.Pairwise.filterMap _ ?_ hitems
  intro left right hlt first hfirst second hsecond
  rw [rawRow_ordinal hfirst, rawRow_ordinal hsecond]
  exact hlt

theorem Db.Consistent.increasing_rawRows {db : Db} (hdb : db.Consistent)
    (conversation : ConversationId) :
    Increasing RawRow.ordinal (rawRows db conversation) :=
  increasing_filterMap_rawRow (hdb.increasing_items conversation)

theorem mem_rawRows {db : Db} {conversation : ConversationId} {raw : RawRow} :
    raw ∈ rawRows db conversation ↔
      ∃ item ∈ db.contextItems, item.conversationId = conversation ∧
        rawRow db item = some raw := by
  simp [rawRows, List.mem_filterMap, and_assoc]

/-! ## Ingest -/

section Push

variable (db : Db) (conversation : ConversationId) (message : Message)
  (largeFile : Option LargeFileRow) (now : String)

/-- The `messages` row of the next push. -/
def pushedRow : MessageRow :=
  messageRow (nextRowid MessageRow.messageId db.messages) conversation
    (nextKey MessageRow.seq (db.conversationMessages conversation)) now message

/-- The context item of the next push. -/
def pushedItem : ContextItem where
  conversationId := conversation
  ordinal := nextKey ContextItem.ordinal (db.conversationItems conversation)
  ref := .message (nextRowid MessageRow.messageId db.messages)

theorem messages_push :
    (pushMessageSync db conversation message largeFile now).messages =
      db.messages ++ [pushedRow db conversation message now] := rfl

theorem contextItems_push :
    (pushMessageSync db conversation message largeFile now).contextItems =
      db.contextItems ++ [pushedItem db conversation] := rfl

theorem extends_push :
    db.Extends (pushMessageSync db conversation message largeFile now) :=
  Db.extends_of_append (messages_push db conversation message largeFile now)
    (List.append_nil db.summaries).symm

theorem lt_nextRowid {Row : Type*} (rowid : Row → ℕ) {rows : List Row}
    {row : Row} (hrow : row ∈ rows) : rowid row < nextRowid rowid rows :=
  lt_of_lt_of_le (lt_nextKey rowid hrow) (le_max_right _ _)

theorem nodup_append_nextRowid {Row : Type*} {rowid : Row → ℕ}
    {rows : List Row} {row : Row} (hnodup : (rows.map rowid).Nodup)
    (hrow : rowid row = nextRowid rowid rows) :
    ((rows ++ [row]).map rowid).Nodup := by
  rw [List.map_append, List.nodup_append]
  refine ⟨hnodup, List.nodup_singleton _, ?_⟩
  intro first hfirst second hsecond
  obtain ⟨other, hother, rfl⟩ := List.mem_map.mp hfirst
  have := lt_nextRowid rowid hother
  simp only [List.map_cons, List.map_nil, List.mem_singleton] at hsecond
  omega

theorem findMessage_pushed {db : Db} (hdb : db.Consistent) :
    (pushMessageSync db conversation message largeFile now).findMessage
        (nextRowid MessageRow.messageId db.messages) =
      some (pushedRow db conversation message now) := by
  have hnodup : ((db.messages ++ [pushedRow db conversation message now]).map
      MessageRow.messageId).Nodup :=
    nodup_append_nextRowid hdb.messageIds rfl
  exact find?_eq_of_nodup hnodup
    (List.mem_append_right _ (List.mem_singleton_self _))

theorem conversationItems_push (other : ConversationId) :
    (pushMessageSync db conversation message largeFile now).conversationItems
        other =
      db.conversationItems other ++
        if conversation = other then [pushedItem db conversation] else [] := by
  rw [Db.conversationItems, contextItems_push, List.filter_append]
  by_cases hother : conversation = other
  · simp [Db.conversationItems, pushedItem, hother]
  · simp [Db.conversationItems, pushedItem, hother]

/-- A push appends one item to its own conversation's context. -/
theorem orderedItems_push {db : Db} (hdb : db.Consistent)
    (other : ConversationId) :
    (pushMessageSync db conversation message largeFile now).orderedItems other =
      db.orderedItems other ++
        if conversation = other then [pushedItem db conversation] else [] := by
  rw [Db.orderedItems, conversationItems_push]
  by_cases hother : conversation = other
  · subst hother
    rw [if_pos rfl, Db.orderedItems]
    apply orderBy_append (hdb.ordinals conversation)
    intro item hitem
    exact lt_nextKey ContextItem.ordinal hitem
  · rw [if_neg hother, List.append_nil, List.append_nil, Db.orderedItems]

theorem rawRow_pushed {db : Db} (hdb : db.Consistent) :
    rawRow (pushMessageSync db conversation message largeFile now)
        (pushedItem db conversation) =
      some ⟨(pushedItem db conversation).ordinal,
        pushedRow db conversation message now⟩ := by
  simp only [rawRow, pushedItem, findMessage_pushed conversation message
    largeFile now hdb, Option.map_some]

theorem rawRows_push {db : Db} (hdb : db.Consistent) (other : ConversationId) :
    rawRows (pushMessageSync db conversation message largeFile now) other =
      rawRows db other ++
        if conversation = other then
          [⟨(pushedItem db conversation).ordinal,
            pushedRow db conversation message now⟩]
        else [] := by
  rw [rawRows, orderedItems_push conversation message largeFile now hdb,
    List.filterMap_append]
  congr 1
  · apply List.filterMap_congr
    intro item hitem
    exact (extends_push db conversation message largeFile now).rawRow_eq
      (hdb.items item (Db.mem_orderedItems.mp hitem).1)
  · by_cases hother : conversation = other
    · rw [if_pos hother, if_pos hother, List.filterMap_cons_some
        (rawRow_pushed conversation message largeFile now hdb)]
      rfl
    · rw [if_neg hother, if_neg hother]
      rfl

/-- A raw row of a conversation is one of its messages. -/
theorem Db.Consistent.rawRow_mem {db : Db} (hdb : db.Consistent)
    {conversation : ConversationId} {raw : RawRow}
    (hraw : raw ∈ rawRows db conversation) :
    raw.row ∈ db.conversationMessages conversation := by
  obtain ⟨item, hitem, hconversation, hrow⟩ := mem_rawRows.mp hraw
  obtain ⟨href, hfind⟩ := rawRow_eq_some hrow
  have hresolves := hdb.items item hitem
  simp only [Db.Resolves, href] at hresolves
  obtain ⟨row, hfind', howner⟩ := hresolves
  obtain rfl : raw.row = row := Option.some.inj (hfind.symm.trans hfind')
  simp [Db.conversationMessages, (Db.mem_of_findMessage hfind).1, howner,
    hconversation]

theorem consistent_push {db : Db} (hdb : db.Consistent) :
    (pushMessageSync db conversation message largeFile now).Consistent where
  messageIds := nodup_append_nextRowid hdb.messageIds rfl
  summaryIds := hdb.summaryIds
  ordinals := by
    intro other
    rw [conversationItems_push]
    by_cases hother : conversation = other
    · subst hother
      rw [if_pos rfl]
      exact nodup_append_next (hdb.ordinals conversation) rfl
    · rw [if_neg hother, List.append_nil]
      exact hdb.ordinals other
  refs := by
    rw [contextItems_push, List.map_append, List.nodup_append]
    refine ⟨hdb.refs, List.nodup_singleton _, ?_⟩
    intro first hfirst second hsecond
    obtain ⟨item, hitem, rfl⟩ := List.mem_map.mp hfirst
    simp only [List.map_cons, List.map_nil, List.mem_singleton] at hsecond
    subst hsecond
    intro href
    have hresolves := hdb.items item hitem
    simp only [Db.Resolves, href, pushedItem] at hresolves
    obtain ⟨row, hfind, _⟩ := hresolves
    obtain ⟨hrow, hid⟩ := Db.mem_of_findMessage hfind
    exact absurd (lt_nextRowid MessageRow.messageId hrow)
      (by rw [hid]; exact lt_irrefl _)
  items := by
    intro item hitem
    rw [contextItems_push] at hitem
    rcases List.mem_append.mp hitem with hold | hnew
    · exact (extends_push db conversation message largeFile now).resolves
        (hdb.items item hold)
    · rw [List.mem_singleton.mp hnew]
      exact ⟨_, findMessage_pushed conversation message largeFile now hdb, rfl⟩
  sourceLinks := by
    intro link hlink
    obtain ⟨⟨summary, hsummary⟩, ⟨row, hrow⟩⟩ := hdb.sourceLinks link hlink
    exact ⟨⟨summary, hsummary⟩, ⟨row,
      (extends_push db conversation message largeFile now).messages hrow⟩⟩
  parentLinks := hdb.parentLinks
  seqs := by
    intro other
    rw [rawRows_push conversation message largeFile now hdb]
    by_cases hother : conversation = other
    · subst hother
      rw [if_pos rfl]
      refine List.pairwise_append.mpr
        ⟨hdb.seqs conversation, List.pairwise_singleton _ _, ?_⟩
      intro raw hraw last hlast
      rw [List.mem_singleton.mp hlast]
      exact lt_nextKey MessageRow.seq (hdb.rawRow_mem hraw)
    · rw [if_neg hother, List.append_nil]
      exact hdb.seqs other

end Push

/-! ## Clear -/

section Clear

variable (db : Db) (conversation : ConversationId)

/-- A clear empties its own conversation's context. -/
theorem conversationItems_clear (other : ConversationId) :
    (clear db conversation).conversationItems other =
      if conversation = other then [] else db.conversationItems other := by
  rw [Db.conversationItems, clear, List.filter_filter]
  by_cases hother : conversation = other
  · simp [hother]
  · rw [if_neg hother, Db.conversationItems]
    apply List.filter_congr
    intro item _
    by_cases howner : item.conversationId = other
    · simp [howner, Ne.symm hother]
    · simp [howner]

theorem orderedItems_clear (other : ConversationId) :
    (clear db conversation).orderedItems other =
      if conversation = other then [] else db.orderedItems other := by
  rw [Db.orderedItems, conversationItems_clear, Db.orderedItems]
  split
  · rfl
  · rfl

theorem extends_clear : db.Extends (clear db conversation) :=
  ⟨fun hfind => hfind, fun hfind => hfind⟩

theorem rawRows_clear (other : ConversationId) :
    rawRows (clear db conversation) other =
      if conversation = other then [] else rawRows db other := by
  rw [rawRows, orderedItems_clear]
  split
  · rfl
  · rfl

theorem consistent_clear {db : Db} (hdb : db.Consistent) :
    (clear db conversation).Consistent where
  messageIds := hdb.messageIds
  summaryIds := hdb.summaryIds
  ordinals := by
    intro other
    rw [conversationItems_clear]
    split
    · exact List.nodup_nil
    · exact hdb.ordinals other
  refs := hdb.refs.sublist (List.filter_sublist.map _)
  items := fun item hitem => hdb.items item (List.mem_filter.mp hitem).1
  sourceLinks := hdb.sourceLinks
  parentLinks := hdb.parentLinks
  seqs := by
    intro other
    rw [rawRows_clear]
    split
    · exact List.Pairwise.nil
    · exact hdb.seqs other

end Clear

/-! ## Summary writes -/

/-- The context items of a conversation in an ordinal range. -/
def Db.rangeItems (db : Db) (conversation : ConversationId) (low high : ℕ) :
    List ContextItem :=
  (db.orderedItems conversation).filter (inRange ContextItem.ordinal low high)

theorem insertSummary_ok {db after : Db} {row : SummaryRow}
    {sources : List MessageId} {children : List SummaryId} {low high : ℕ}
    (hwrite : insertSummary db row sources children low high = .ok after) :
    db.findSummary row.summaryId = none ∧
      after = db.withSummary row sources children low high := by
  unfold insertSummary at hwrite
  split at hwrite
  · cases hwrite
  · next hfresh =>
      refine ⟨?_, by simpa using hwrite.symm⟩
      rw [Db.findSummary, List.find?_eq_none]
      simpa using hfresh

section WithSummary

variable {db : Db} {row : SummaryRow} {sources : List MessageId}
  {children : List SummaryId} {low high : ℕ}

theorem extends_withSummary :
    db.Extends (db.withSummary row sources children low high) :=
  Db.extends_of_append (List.append_nil db.messages).symm rfl

theorem mem_contextItems_withSummary {item : ContextItem} :
    item ∈ (db.withSummary row sources children low high).contextItems ↔
      (item ∈ db.contextItems ∧
        item ∉ db.rangeItems row.conversationId low high) ∨
      item = ⟨row.conversationId, low, .summary row.summaryId⟩ := by
  simp only [Db.withSummary, replaceItems, List.mem_append, List.mem_filter,
    List.mem_singleton, Db.rangeItems, Db.mem_orderedItems]
  refine or_congr_left (and_congr_right fun hitem => ?_)
  by_cases howner : item.conversationId = row.conversationId
  · have hrange : (item.ordinal < low ∨ high < item.ordinal) ↔
        (low ≤ item.ordinal → high < item.ordinal) := by omega
    simp [hitem, howner, inRange, hrange]
  · simp [howner]

theorem mem_rangeItems {conversation : ConversationId} {item : ContextItem}
    (hitem : item ∈ db.rangeItems conversation low high) :
    item ∈ db.contextItems :=
  (Db.mem_orderedItems.mp (List.mem_filter.mp hitem).1).1

theorem conversationItems_withSummary :
    (db.withSummary row sources children low high).conversationItems
        row.conversationId =
      collapse ContextItem.ordinal low high
        ⟨row.conversationId, low, .summary row.summaryId⟩
        (db.conversationItems row.conversationId) := by
  simp only [Db.conversationItems, Db.withSummary, replaceItems, collapse,
    List.filter_append, List.filter_filter]
  congr 1
  · apply List.filter_congr
    intro item _
    by_cases howner : item.conversationId = row.conversationId
    · simp [howner]
    · simp [beq_eq_false_iff_ne.mpr howner]
  · simp

theorem conversationItems_withSummary_other {other : ConversationId}
    (hother : row.conversationId ≠ other) :
    (db.withSummary row sources children low high).conversationItems other =
      db.conversationItems other := by
  simp only [Db.conversationItems, Db.withSummary, replaceItems,
    List.filter_append, List.filter_filter]
  rw [List.filter_cons_of_neg (by simpa using hother), List.filter_nil,
    List.append_nil]
  apply List.filter_congr
  intro item _
  by_cases howner : item.conversationId = other
  · simp [howner, Ne.symm hother]
  · simp [howner]

/-- A summary write replaces the ordinal range by the summary's item. -/
theorem orderedItems_withSummary (hdb : db.Consistent) (hrange : low ≤ high) :
    (db.withSummary row sources children low high).orderedItems
        row.conversationId =
      (db.orderedItems row.conversationId).filter
          (fun item => decide (item.ordinal < low)) ++
        ⟨row.conversationId, low, .summary row.summaryId⟩ ::
          (db.orderedItems row.conversationId).filter
            (fun item => decide (high < item.ordinal)) := by
  rw [Db.orderedItems, conversationItems_withSummary]
  exact orderBy_collapse (hdb.ordinals _) le_rfl hrange

theorem orderedItems_withSummary_other {other : ConversationId}
    (hother : row.conversationId ≠ other) :
    (db.withSummary row sources children low high).orderedItems other =
      db.orderedItems other := by
  rw [Db.orderedItems, conversationItems_withSummary_other hother,
    Db.orderedItems]

/-- The context before a write, cut at the range the write replaces. -/
theorem orderedItems_split (hdb : db.Consistent)
    (conversation : ConversationId) (hrange : low ≤ high) :
    db.orderedItems conversation =
      (db.orderedItems conversation).filter
          (fun item => decide (item.ordinal < low)) ++
        (db.rangeItems conversation low high ++
          (db.orderedItems conversation).filter
            (fun item => decide (high < item.ordinal))) :=
  (hdb.increasing_items conversation).split_range hrange

theorem rawRows_withSummary (hdb : db.Consistent) (hrange : low ≤ high) :
    rawRows (db.withSummary row sources children low high) row.conversationId =
      (rawRows db row.conversationId).filter fun raw =>
        !inRange RawRow.ordinal low high raw := by
  have hkeep : ∀ items : List ContextItem,
      (∀ item ∈ items, item ∈ db.orderedItems row.conversationId) →
      items.filterMap (rawRow (db.withSummary row sources children low high)) =
        items.filterMap (rawRow db) := by
    intro items hitems
    apply List.filterMap_congr
    intro item hitem
    exact extends_withSummary.rawRow_eq
      (hdb.items item (Db.mem_orderedItems.mp (hitems item hitem)).1)
  rw [rawRows, orderedItems_withSummary hdb hrange, List.filterMap_append,
    List.filterMap_cons_none rfl,
    hkeep _ fun item hitem => (List.mem_filter.mp hitem).1,
    hkeep _ fun item hitem => (List.mem_filter.mp hitem).1,
    filterMap_rawRow_filter db (fun ordinal => decide (ordinal < low)),
    filterMap_rawRow_filter db (fun ordinal => decide (high < ordinal))]
  exact ((hdb.increasing_rawRows row.conversationId).filter_outside hrange).symm

theorem rawRows_withSummary_other (hdb : db.Consistent)
    {other : ConversationId} (hother : row.conversationId ≠ other) :
    rawRows (db.withSummary row sources children low high) other =
      rawRows db other := by
  rw [rawRows, orderedItems_withSummary_other hother]
  apply List.filterMap_congr
  intro item hitem
  exact extends_withSummary.rawRow_eq
    (hdb.items item (Db.mem_orderedItems.mp hitem).1)

/-- A write leaves the ranges it does not meet as they are. -/
theorem rangeItems_withSummary (hdb : db.Consistent) (hrange : low ≤ high)
    {first last : ℕ} (hdisjoint : high < first) :
    (db.withSummary row sources children low high).rangeItems
        row.conversationId first last =
      db.rangeItems row.conversationId first last := by
  have hnew : inRange ContextItem.ordinal first last
      ⟨row.conversationId, low, .summary row.summaryId⟩ = false := by
    simp only [inRange, Bool.and_eq_false_iff, decide_eq_false_iff_not]
    omega
  have hold : (db.rangeItems row.conversationId low high).filter
      (inRange ContextItem.ordinal first last) = [] := by
    rw [List.filter_eq_nil_iff]
    intro item hitem hin
    have := (List.mem_filter.mp hitem).2
    rw [inRange_iff] at this hin
    omega
  rw [Db.rangeItems, Db.rangeItems, orderedItems_withSummary hdb hrange]
  conv_rhs => rw [orderedItems_split hdb row.conversationId hrange]
  rw [List.filter_append, List.filter_append, List.filter_append, hold,
    List.filter_cons_of_neg (by rw [hnew]; exact Bool.false_ne_true),
    List.nil_append]

theorem findSummary_withSummary (hfresh : db.findSummary row.summaryId = none) :
    (db.withSummary row sources children low high).findSummary row.summaryId =
      some row := by
  rw [Db.findSummary] at hfresh
  rw [Db.findSummary, Db.withSummary, List.find?_append, hfresh]
  simp

theorem consistent_withSummary (hdb : db.Consistent)
    (hfresh : db.findSummary row.summaryId = none) (hrange : low ≤ high)
    (hsources : ∀ source ∈ sources, ∃ row, db.findMessage source = some row)
    (hchildren : ∀ child ∈ children, ∃ row, db.findSummary child = some row) :
    (db.withSummary row sources children low high).Consistent where
  messageIds := hdb.messageIds
  summaryIds := by
    rw [Db.withSummary, List.map_append, List.nodup_append]
    refine ⟨hdb.summaryIds, List.nodup_singleton _, ?_⟩
    intro first hfirst second hsecond
    obtain ⟨other, hother, rfl⟩ := List.mem_map.mp hfirst
    simp only [List.map_cons, List.map_nil, List.mem_singleton] at hsecond
    rw [Db.findSummary, List.find?_eq_none] at hfresh
    simpa [hsecond] using hfresh other hother
  ordinals := by
    intro other
    by_cases hother : row.conversationId = other
    · subst hother
      rw [conversationItems_withSummary]
      exact nodup_collapse (hdb.ordinals _) le_rfl hrange
    · rw [conversationItems_withSummary_other hother]
      exact hdb.ordinals other
  refs := by
    simp only [Db.withSummary, replaceItems]
    rw [List.map_append, List.nodup_append]
    refine ⟨hdb.refs.sublist (List.filter_sublist.map _),
      List.nodup_singleton _, ?_⟩
    intro first hfirst second hsecond
    obtain ⟨item, hitem, rfl⟩ := List.mem_map.mp hfirst
    simp only [List.map_cons, List.map_nil, List.mem_singleton] at hsecond
    subst hsecond
    intro href
    have hresolves := hdb.items item (List.mem_filter.mp hitem).1
    simp only [Db.Resolves, href] at hresolves
    obtain ⟨other, hfind⟩ := hresolves
    rw [hfresh] at hfind
    cases hfind
  items := by
    intro item hitem
    simp only [Db.withSummary, replaceItems] at hitem
    rcases List.mem_append.mp hitem with hold | hnew
    · exact extends_withSummary.resolves
        (hdb.items item (List.mem_filter.mp hold).1)
    · rw [List.mem_singleton.mp hnew]
      exact ⟨row, findSummary_withSummary hfresh⟩
  sourceLinks := by
    intro link hlink
    simp only [Db.withSummary] at hlink
    rcases List.mem_append.mp hlink with hold | hnew
    · obtain ⟨⟨summary, hsummary⟩, ⟨message, hmessage⟩⟩ :=
        hdb.sourceLinks link hold
      exact ⟨⟨summary, extends_withSummary.summaries hsummary⟩,
        ⟨message, extends_withSummary.messages hmessage⟩⟩
    · obtain ⟨source, hsource, rfl⟩ := List.mem_map.mp hnew
      obtain ⟨message, hmessage⟩ := hsources source hsource
      exact ⟨⟨row, findSummary_withSummary hfresh⟩,
        ⟨message, extends_withSummary.messages hmessage⟩⟩
  parentLinks := by
    intro link hlink
    simp only [Db.withSummary] at hlink
    rcases List.mem_append.mp hlink with hold | hnew
    · obtain ⟨⟨child, hchild⟩, ⟨parent, hparent⟩⟩ := hdb.parentLinks link hold
      exact ⟨⟨child, extends_withSummary.summaries hchild⟩,
        ⟨parent, extends_withSummary.summaries hparent⟩⟩
    · obtain ⟨child, hchild, rfl⟩ := List.mem_map.mp hnew
      obtain ⟨found, hfound⟩ := hchildren child hchild
      exact ⟨⟨found, extends_withSummary.summaries hfound⟩,
        ⟨row, findSummary_withSummary hfresh⟩⟩
  seqs := by
    intro other
    by_cases hother : row.conversationId = other
    · subst hother
      rw [rawRows_withSummary hdb hrange]
      exact (hdb.seqs _).filter _
    · rw [rawRows_withSummary_other hdb hother]
      exact hdb.seqs other

end WithSummary

end Kitaebot.Lcm
