import Kitaebot.Lcm.System

/-!
# Expanding summaries

A summary stands for the messages under it: the sources of a leaf, and for a
condensed summary those of its children.  Summaries are never rewritten, so an
expansion does not change when a message is pushed or another summary is
written, and the expansion of a new summary is that of the range it replaces.
-/

namespace Kitaebot.Lcm

open OrderedTable

/-- The messages a leaf summary links, in link order. -/
def sourceRows (db : Db) (id : SummaryId) : List MessageRow :=
  (db.summaryMessages.filter (·.summaryId == id)).filterMap fun link =>
    db.findMessage link.messageId

/-- The summaries a condensed summary links, in link order. -/
def childIds (db : Db) (id : SummaryId) : List SummaryId :=
  (db.summaryParents.filter (·.parentSummaryId == id)).map
    SummaryParent.summaryId

/-- The messages under a summary, down to a number of levels. -/
def expandTo (db : Db) : ℕ → SummaryId → List MessageRow
  | 0, id => sourceRows db id
  | levels + 1, id =>
      sourceRows db id ++ (childIds db id).flatMap (expandTo db levels)

/-- The messages under a summary, down to its depth. -/
def expand (db : Db) (id : SummaryId) : List MessageRow :=
  expandTo db (((db.findSummary id).map SummaryRow.depth).getD 0) id

/-- The messages a context item stands for. -/
def expandItem (db : Db) (item : ContextItem) : List MessageRow :=
  match item.ref with
  | .message id => (db.findMessage id).toList
  | .summary id => expand db id

/-- The context of a conversation with every summary expanded. -/
def coverage (db : Db) (conversation : ConversationId) : List MessageRow :=
  (db.orderedItems conversation).flatMap (expandItem db)

/-! ## Expansions are stable -/

theorem Db.Consistent.childIds_found {db : Db} (hdb : db.Consistent)
    {id child : SummaryId} (hchild : child ∈ childIds db id) :
    ∃ row, db.findSummary child = some row := by
  obtain ⟨link, hlink, rfl⟩ := List.mem_map.mp hchild
  exact (hdb.parentLinks link (List.mem_filter.mp hlink).1).1

section Push

variable (conversation : ConversationId) (message : Message)
  (largeFile : Option LargeFileRow) (now : String)

theorem expandTo_push {db : Db} (hdb : db.Consistent) (levels : ℕ)
    (id : SummaryId) :
    expandTo (pushMessageSync db conversation message largeFile now) levels id =
      expandTo db levels id := by
  have hsources : ∀ id, sourceRows
      (pushMessageSync db conversation message largeFile now) id =
        sourceRows db id := by
    intro id
    apply List.filterMap_congr
    intro link hlink
    obtain ⟨row, hrow⟩ := (hdb.sourceLinks link (List.mem_filter.mp hlink).1).2
    rw [hrow, (extends_push db conversation message largeFile now).messages hrow]
  induction levels generalizing id with
  | zero => exact hsources id
  | succ levels ih =>
      rw [expandTo, expandTo, hsources]
      congr 1
      apply List.flatMap_congr
      intro child _
      exact ih child

theorem expandItem_push {db : Db} (hdb : db.Consistent) {item : ContextItem}
    (hitem : item ∈ db.contextItems) :
    expandItem (pushMessageSync db conversation message largeFile now) item =
      expandItem db item := by
  have hresolves := hdb.items item hitem
  unfold Db.Resolves at hresolves
  cases href : item.ref with
  | message id =>
      rw [href] at hresolves
      obtain ⟨row, hfind, _⟩ := hresolves
      simp only [expandItem, href, hfind,
        (extends_push db conversation message largeFile now).messages hfind]
  | summary id =>
      simp only [expandItem, href]
      exact expandTo_push conversation message largeFile now hdb _ id

/-- A push adds one message to what its conversation's context covers. -/
theorem coverage_push {db : Db} (hdb : db.Consistent) (other : ConversationId) :
    coverage (pushMessageSync db conversation message largeFile now) other =
      coverage db other ++
        if conversation = other then [pushedRow db conversation message now]
        else [] := by
  rw [coverage, orderedItems_push conversation message largeFile now hdb,
    List.flatMap_append]
  congr 1
  · apply List.flatMap_congr
    intro item hitem
    exact expandItem_push conversation message largeFile now hdb
      (Db.mem_orderedItems.mp hitem).1
  · by_cases hother : conversation = other
    · have hfind := findMessage_pushed conversation message largeFile now hdb
      simp only [if_pos hother, List.flatMap_cons, List.flatMap_nil,
        List.append_nil, expandItem, pushedItem, hfind, Option.toList_some]
    · simp only [if_neg hother, List.flatMap_nil]

end Push

theorem expandTo_clear (db : Db) (conversation : ConversationId) (levels : ℕ)
    (id : SummaryId) :
    expandTo (clear db conversation) levels id = expandTo db levels id := by
  induction levels generalizing id with
  | zero => rfl
  | succ levels ih =>
      rw [expandTo, expandTo]
      exact congrArg (sourceRows db id ++ ·)
        (List.flatMap_congr fun child _ => ih child)

theorem expandItem_clear (db : Db) (conversation : ConversationId)
    (item : ContextItem) :
    expandItem (clear db conversation) item = expandItem db item := by
  cases href : item.ref with
  | message id =>
      simp only [expandItem, href]
      rfl
  | summary id =>
      simp only [expandItem, href]
      exact expandTo_clear db conversation _ id

/-- A clear leaves nothing covered in its own conversation. -/
theorem coverage_clear (db : Db) (conversation other : ConversationId) :
    coverage (clear db conversation) other =
      if conversation = other then [] else coverage db other := by
  rw [coverage, orderedItems_clear]
  split
  · rfl
  · exact List.flatMap_congr fun item _ => expandItem_clear db conversation item

theorem expandTo_conversations (db : Db) (conversations : List Conversation)
    (levels : ℕ) (id : SummaryId) :
    expandTo { db with conversations } levels id = expandTo db levels id := by
  induction levels generalizing id with
  | zero => rfl
  | succ levels ih =>
      exact congrArg (sourceRows db id ++ ·)
        (List.flatMap_congr fun child _ => ih child)

theorem coverage_conversations (db : Db) (conversations : List Conversation)
    (conversation : ConversationId) :
    coverage { db with conversations } conversation =
      coverage db conversation := by
  refine List.flatMap_congr fun item _ => ?_
  cases href : item.ref with
  | message id =>
      simp only [expandItem, href]
      rfl
  | summary id =>
      simp only [expandItem, href]
      exact expandTo_conversations db conversations _ id

section WithSummary

variable {db : Db} {row : SummaryRow} {sources : List MessageId}
  {children : List SummaryId} {low high : ℕ}

theorem sourceRows_withSummary_other {id : SummaryId} (hid : id ≠ row.summaryId) :
    sourceRows (db.withSummary row sources children low high) id =
      sourceRows db id := by
  rw [sourceRows, sourceRows, Db.withSummary, List.filter_append]
  have hnew : ((sources.map fun source => (⟨row.summaryId, source⟩ :
      SummaryMessage)).filter (·.summaryId == id)) = [] := by
    rw [List.filter_eq_nil_iff]
    intro link hlink
    obtain ⟨_, _, rfl⟩ := List.mem_map.mp hlink
    simpa using Ne.symm hid
  rw [hnew, List.append_nil]
  rfl

theorem childIds_withSummary_other {id : SummaryId} (hid : id ≠ row.summaryId) :
    childIds (db.withSummary row sources children low high) id =
      childIds db id := by
  rw [childIds, childIds, Db.withSummary, List.filter_append]
  have hnew : ((children.map fun child => (⟨child, row.summaryId⟩ :
      SummaryParent)).filter (·.parentSummaryId == id)) = [] := by
    rw [List.filter_eq_nil_iff]
    intro link hlink
    obtain ⟨_, _, rfl⟩ := List.mem_map.mp hlink
    simpa using Ne.symm hid
  rw [hnew, List.append_nil]

/-- The sources of a new summary are those its write links. -/
theorem sourceRows_withSummary (hdb : db.Consistent)
    (hfresh : db.findSummary row.summaryId = none) :
    sourceRows (db.withSummary row sources children low high) row.summaryId =
      sources.filterMap db.findMessage := by
  rw [sourceRows, Db.withSummary, List.filter_append]
  have hold : db.summaryMessages.filter (·.summaryId == row.summaryId) = [] := by
    rw [List.filter_eq_nil_iff]
    intro link hlink hid
    obtain ⟨⟨found, hfound⟩, _⟩ := hdb.sourceLinks link hlink
    rw [eq_of_beq hid, hfresh] at hfound
    cases hfound
  have hnew : ((sources.map fun source => (⟨row.summaryId, source⟩ :
      SummaryMessage)).filter (·.summaryId == row.summaryId)) =
        sources.map fun source => ⟨row.summaryId, source⟩ := by
    rw [List.filter_eq_self]
    intro link hlink
    obtain ⟨_, _, rfl⟩ := List.mem_map.mp hlink
    simp
  rw [hold, hnew, List.nil_append, List.filterMap_map]
  rfl

/-- The children of a new summary are those its write links. -/
theorem childIds_withSummary (hdb : db.Consistent)
    (hfresh : db.findSummary row.summaryId = none) :
    childIds (db.withSummary row sources children low high) row.summaryId =
      children := by
  rw [childIds, Db.withSummary, List.filter_append]
  have hold : db.summaryParents.filter
      (·.parentSummaryId == row.summaryId) = [] := by
    rw [List.filter_eq_nil_iff]
    intro link hlink hid
    obtain ⟨_, ⟨found, hfound⟩⟩ := hdb.parentLinks link hlink
    rw [eq_of_beq hid, hfresh] at hfound
    cases hfound
  have hnew : ((children.map fun child => (⟨child, row.summaryId⟩ :
      SummaryParent)).filter (·.parentSummaryId == row.summaryId)) =
        children.map fun child => ⟨child, row.summaryId⟩ := by
    rw [List.filter_eq_self]
    intro link hlink
    obtain ⟨_, _, rfl⟩ := List.mem_map.mp hlink
    simp
  rw [hold, hnew, List.nil_append, List.map_map]
  exact List.map_id' children

/-- A summary write leaves the expansion of every other summary. -/
theorem expandTo_withSummary_other (hdb : db.Consistent)
    (hfresh : db.findSummary row.summaryId = none) (levels : ℕ)
    {id : SummaryId} (hid : id ≠ row.summaryId) :
    expandTo (db.withSummary row sources children low high) levels id =
      expandTo db levels id := by
  induction levels generalizing id with
  | zero => exact sourceRows_withSummary_other hid
  | succ levels ih =>
      rw [expandTo, expandTo, sourceRows_withSummary_other hid,
        childIds_withSummary_other hid]
      congr 1
      apply List.flatMap_congr
      intro child hchild
      apply ih
      rintro rfl
      obtain ⟨found, hfound⟩ := hdb.childIds_found hchild
      rw [hfresh] at hfound
      cases hfound

theorem expand_withSummary_other (hdb : db.Consistent)
    (hfresh : db.findSummary row.summaryId = none) {id : SummaryId}
    {found : SummaryRow} (hfound : db.findSummary id = some found) :
    expand (db.withSummary row sources children low high) id =
      expand db id := by
  have hid : id ≠ row.summaryId := by
    rintro rfl
    rw [hfresh] at hfound
    cases hfound
  rw [expand, expand, hfound, extends_withSummary.summaries hfound]
  exact expandTo_withSummary_other hdb hfresh _ hid

theorem expandItem_withSummary (hdb : db.Consistent)
    (hfresh : db.findSummary row.summaryId = none) {item : ContextItem}
    (hitem : item ∈ db.contextItems) :
    expandItem (db.withSummary row sources children low high) item =
      expandItem db item := by
  have hresolves := hdb.items item hitem
  unfold Db.Resolves at hresolves
  cases href : item.ref with
  | message id =>
      simp only [expandItem, href]
      rfl
  | summary id =>
      rw [href] at hresolves
      obtain ⟨found, hfound⟩ := hresolves
      simp only [expandItem, href]
      exact expand_withSummary_other hdb hfresh hfound

/-- The expansion of a new leaf summary. -/
theorem expand_leaf (hdb : db.Consistent)
    (hfresh : db.findSummary row.summaryId = none) (hdepth : row.depth = 0) :
    expand (db.withSummary row sources [] low high) row.summaryId =
      sources.filterMap db.findMessage := by
  rw [expand, findSummary_withSummary hfresh, Option.map_some, Option.getD_some,
    hdepth, expandTo]
  exact sourceRows_withSummary hdb hfresh

/-- The expansion of a new condensed summary whose children have one depth. -/
theorem expand_condensed (hdb : db.Consistent)
    (hfresh : db.findSummary row.summaryId = none) {depth : ℕ}
    (hdepth : row.depth = depth + 1)
    (hchildren : ∀ child ∈ children, ∃ found,
      db.findSummary child = some found ∧ found.depth = depth) :
    expand (db.withSummary row [] children low high) row.summaryId =
      children.flatMap (expand db) := by
  rw [expand, findSummary_withSummary hfresh, Option.map_some, Option.getD_some,
    hdepth, expandTo, sourceRows_withSummary hdb hfresh,
    childIds_withSummary hdb hfresh, List.filterMap_nil, List.nil_append]
  apply List.flatMap_congr
  intro child hchild
  obtain ⟨found, hfound, rfl⟩ := hchildren child hchild
  have hid : child ≠ row.summaryId := by
    rintro rfl
    rw [hfresh] at hfound
    cases hfound
  rw [expandTo_withSummary_other hdb hfresh _ hid, expand, hfound,
    Option.map_some, Option.getD_some]

theorem coverage_withSummary_other (hdb : db.Consistent)
    (hfresh : db.findSummary row.summaryId = none) {other : ConversationId}
    (hother : row.conversationId ≠ other) :
    coverage (db.withSummary row sources children low high) other =
      coverage db other := by
  rw [coverage, orderedItems_withSummary_other hother]
  apply List.flatMap_congr
  intro item hitem
  exact expandItem_withSummary hdb hfresh (Db.mem_orderedItems.mp hitem).1

/-- A write whose summary expands to the range it replaces leaves the
coverage. -/
theorem coverage_withSummary (hdb : db.Consistent)
    (hfresh : db.findSummary row.summaryId = none) (hrange : low ≤ high)
    (hexpand : expand (db.withSummary row sources children low high)
        row.summaryId =
      (db.rangeItems row.conversationId low high).flatMap (expandItem db)) :
    coverage (db.withSummary row sources children low high)
        row.conversationId =
      coverage db row.conversationId := by
  have hkeep : ∀ keep : ContextItem → Bool,
      ((db.orderedItems row.conversationId).filter keep).flatMap
          (expandItem (db.withSummary row sources children low high)) =
        ((db.orderedItems row.conversationId).filter keep).flatMap
          (expandItem db) := by
    intro keep
    apply List.flatMap_congr
    intro item hitem
    exact expandItem_withSummary hdb hfresh
      (Db.mem_orderedItems.mp (List.mem_filter.mp hitem).1).1
  rw [coverage, orderedItems_withSummary hdb hrange, List.flatMap_append,
    List.flatMap_cons, hkeep, hkeep]
  conv_rhs => rw [coverage, orderedItems_split hdb row.conversationId hrange]
  rw [List.flatMap_append, List.flatMap_append, ← hexpand]
  rfl

end WithSummary

/-! ## The ranges a cycle replaces -/

/-- A range of message items expands to its raw rows. -/
theorem flatMap_expandItem_messages (db : Db) {items : List ContextItem}
    (hitems : ∀ item ∈ items, isSummaryItem item = false) :
    items.flatMap (expandItem db) =
      (items.filterMap (rawRow db)).map RawRow.row := by
  induction items with
  | nil => rfl
  | cons item items ih =>
      have htail := ih fun other hother =>
        hitems other (List.mem_cons_of_mem _ hother)
      have hhead := hitems item List.mem_cons_self
      cases href : item.ref with
      | summary id => simp [isSummaryItem, href] at hhead
      | message id =>
          rw [List.flatMap_cons, htail]
          cases hfind : db.findMessage id with
          | none =>
              have hraw : rawRow db item = none := by
                simp only [rawRow, href, hfind, Option.map_none]
              rw [List.filterMap_cons_none hraw]
              simp only [expandItem, href, hfind, Option.toList_none,
                List.nil_append]
          | some row =>
              have hraw : rawRow db item = some ⟨item.ordinal, row⟩ := by
                simp only [rawRow, href, hfind, Option.map_some]
              rw [List.filterMap_cons_some hraw]
              simp only [expandItem, href, hfind, Option.toList_some,
                List.map_cons, List.singleton_append]

theorem filterMap_findMessage {db : Db} {group : List RawRow}
    (hfound : ∀ raw ∈ group,
      db.findMessage raw.row.messageId = some raw.row) :
    (group.map (·.row.messageId)).filterMap db.findMessage =
      group.map RawRow.row := by
  induction group with
  | nil => rfl
  | cons raw group ih =>
      rw [List.map_cons, List.filterMap_cons_some
        (hfound raw List.mem_cons_self), List.map_cons,
        ih fun other hother => hfound other (List.mem_cons_of_mem _ hother)]

/-- The expansion of the summary a leaf write inserts. -/
theorem expand_leafWrite {db : Db} (hdb : db.Consistent)
    {conversation : ConversationId} {group : List RawRow}
    (hgroup : LeafPending db conversation group) {row : SummaryRow}
    (hrow : SummarizesGroup conversation group row)
    (hfresh : db.findSummary row.summaryId = none) :
    expand (db.withSummary row (group.map (·.row.messageId)) []
        (firstKey RawRow.ordinal group) (lastKey RawRow.ordinal group))
        row.summaryId = group.map RawRow.row := by
  rw [expand_leaf hdb hfresh hrow.depth]
  exact filterMap_findMessage hgroup.sources

theorem CondensedPending.childDepths {db : Db} {conversation : ConversationId}
    {chunk : CondensedChunk} (hchunk : CondensedPending db conversation chunk) :
    ∀ child ∈ chunk.rows.map CondensedRow.summaryId, ∃ found,
      db.findSummary child = some found ∧ found.depth = chunk.depth := by
  intro child hchild
  obtain ⟨row, hrow, rfl⟩ := List.mem_map.mp hchild
  obtain ⟨_, _, found, hfound, _, heq⟩ := hchunk.children row hrow
  refine ⟨found, hfound, ?_⟩
  rw [← hchunk.depths row hrow, heq]
  rfl

/-- The expansion of the summary a condensed write inserts. -/
theorem expand_condensedWrite {db : Db} (hdb : db.Consistent)
    {conversation : ConversationId} {chunk : CondensedChunk}
    (hchunk : CondensedPending db conversation chunk) {row : SummaryRow}
    (hrow : SummarizesChunk conversation chunk row)
    (hfresh : db.findSummary row.summaryId = none) :
    expand (db.withSummary row [] (chunk.rows.map CondensedRow.summaryId)
        (firstKey CondensedRow.ordinal chunk.rows)
        (lastKey CondensedRow.ordinal chunk.rows)) row.summaryId =
      (chunk.rows.map CondensedRow.summaryId).flatMap (expand db) :=
  expand_condensed hdb hfresh hrow.depth hchunk.childDepths

/-- A range of summary items expands to the children of its chunk. -/
theorem flatMap_expandItem_summaries {db : Db} {conversation : ConversationId}
    {chunk : CondensedChunk} (hchunk : CondensedPending db conversation chunk) :
    (condensedRange db conversation chunk).flatMap (expandItem db) =
      (chunk.rows.map CondensedRow.summaryId).flatMap (expand db) := by
  rw [List.flatMap_def, List.flatMap_def, List.map_map]
  congr 1
  refine (map_eq_of_forall₂ (forall₂_of_map_eq hchunk.rows) ?_).symm
  intro item row hrow
  obtain ⟨_, _, href, _⟩ := condensedRowOf_eq_some hrow
  simp only [expandItem, href, Function.comp_apply]

end Kitaebot.Lcm
