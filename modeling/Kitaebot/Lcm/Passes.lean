import Mathlib.Data.List.Chain
import Mathlib.Data.List.ReduceOption
import Kitaebot.Lcm.Consistency

/-!
# What a compaction cycle can write

The chunks a pass loads are contiguous, disjoint and nonempty.  A chunk that
waits for its summary keeps describing its ordinal range while the chunks
before it are written, so every write of a cycle replaces exactly the range
its chunk was cut from.  `runCompaction_preserves` turns this into the rule by
which a cycle keeps a property of the database.
-/

namespace Kitaebot.Lcm

open OrderedTable

/-! ## Leaf groups -/

section LeafGroups

variable {pinned : Option ℕ} {leafBudget : ℕ}

theorem leafGroups_ne_nil {rows current : List RawRow} {tokens : ℕ}
    {group : List RawRow}
    (hgroup : group ∈ leafGroups pinned leafBudget rows current tokens) :
    group ≠ [] := by
  fun_induction leafGroups pinned leafBudget rows current tokens with
  | case1 => simp at hgroup
  | case2 current tokens hcurrent =>
      rw [List.mem_singleton.mp hgroup]
      simpa using hcurrent
  | case3 row rest current tokens _ _ ih => exact ih hgroup
  | case4 row rest current tokens _ hcurrent ih =>
      rcases List.mem_cons.mp hgroup with rfl | hrest
      · simpa using hcurrent
      · exact ih hrest
  | case5 row rest current tokens _ hfull ih =>
      rcases List.mem_cons.mp hgroup with rfl | hrest
      · intro hnil
        simp [hnil] at hfull
      · exact ih hrest
  | case6 row rest current tokens _ _ ih => exact ih hgroup

/-- Every group is a contiguous slice of the rows. -/
theorem leafGroups_slice {rows current : List RawRow} {tokens : ℕ}
    {group : List RawRow}
    (hgroup : group ∈ leafGroups pinned leafBudget rows current tokens) :
    group <:+: current ++ rows := by
  fun_induction leafGroups pinned leafBudget rows current tokens with
  | case1 => simp at hgroup
  | case2 current tokens hcurrent =>
      rw [List.mem_singleton.mp hgroup]
      exact (List.prefix_append _ _).isInfix
  | case3 row rest current tokens _ hcurrent ih =>
      obtain rfl : current = [] := by simpa using hcurrent
      exact (ih hgroup).trans (List.suffix_cons row rest).isInfix
  | case4 row rest current tokens _ _ ih =>
      rcases List.mem_cons.mp hgroup with rfl | hrest
      · exact (List.prefix_append _ _).isInfix
      · exact (ih hrest).trans
          ((List.suffix_cons row rest).trans (List.suffix_append _ _)).isInfix
  | case5 row rest current tokens _ _ ih =>
      rcases List.mem_cons.mp hgroup with rfl | hrest
      · exact (List.prefix_append _ _).isInfix
      · exact (ih hrest).trans (List.suffix_append current _).isInfix
  | case6 row rest current tokens _ _ ih =>
      simpa only [List.append_assoc, List.singleton_append] using ih hgroup

/-- The groups together are the unpinned rows, in order. -/
theorem flatten_leafGroups (rows current : List RawRow) (tokens : ℕ) :
    (leafGroups pinned leafBudget rows current tokens).flatten =
      current ++ rows.filter fun row => decide (some row.ordinal ≠ pinned) := by
  fun_induction leafGroups pinned leafBudget rows current tokens with
  | case1 current tokens hcurrent => simpa using hcurrent
  | case2 current tokens _ => simp
  | case3 row rest current tokens hpinned hcurrent ih =>
      rw [ih, List.filter_cons_of_neg (by simpa using hpinned)]
  | case4 row rest current tokens hpinned _ ih =>
      rw [List.flatten_cons, ih, List.filter_cons_of_neg (by simpa using hpinned),
        List.nil_append]
  | case5 row rest current tokens hpinned _ ih =>
      rw [List.flatten_cons, ih, List.filter_cons_of_pos (by simpa using hpinned)]
      rfl
  | case6 row rest current tokens hpinned _ ih =>
      rw [ih, List.filter_cons_of_pos (by simpa using hpinned), List.append_assoc]
      rfl

/-- Neighbours in one group fit the budget together. -/
theorem leafGroups_budget {rows current : List RawRow} {tokens : ℕ}
    (hcurrent : current.IsChain fun left right =>
      left.row.tokenCount + right.row.tokenCount ≤ leafBudget)
    (htokens : ∀ last ∈ current.getLast?, last.row.tokenCount ≤ tokens)
    {group : List RawRow}
    (hgroup : group ∈ leafGroups pinned leafBudget rows current tokens) :
    group.IsChain fun left right =>
      left.row.tokenCount + right.row.tokenCount ≤ leafBudget := by
  fun_induction leafGroups pinned leafBudget rows current tokens with
  | case1 => simp at hgroup
  | case2 current tokens _ =>
      rw [List.mem_singleton.mp hgroup]
      exact hcurrent
  | case3 row rest current tokens _ _ ih => exact ih hcurrent htokens hgroup
  | case4 row rest current tokens _ _ ih =>
      rcases List.mem_cons.mp hgroup with rfl | hrest
      · exact hcurrent
      · exact ih List.IsChain.nil (by simp) hrest
  | case5 row rest current tokens _ _ ih =>
      rcases List.mem_cons.mp hgroup with rfl | hrest
      · exact hcurrent
      · exact ih (List.IsChain.singleton row) (by simp) hrest
  | case6 row rest current tokens _ hfits ih =>
      refine ih ?_ (by simp) hgroup
      rw [List.isChain_append]
      refine ⟨hcurrent, List.IsChain.singleton row, ?_⟩
      intro last hlast first hfirst
      have hrow : row = first := by simpa using hfirst
      subst hrow
      have hle := htokens last hlast
      have hne : current.isEmpty = false := by
        cases current with
        | nil => simp at hlast
        | cons head tail => rfl
      simp only [hne, Bool.not_false, Bool.true_and, decide_eq_true_eq,
        not_lt] at hfits
      omega

end LeafGroups

/-- Nonempty slices whose concatenation is strictly increasing have disjoint
increasing key ranges. -/
theorem pairwise_ranges {Row : Type*} {key : Row → ℕ} {groups : List (List Row)}
    (hflatten : Increasing key groups.flatten)
    (hne : ∀ group ∈ groups, group ≠ []) :
    groups.Pairwise fun left right => lastKey key left < firstKey key right := by
  rw [Increasing, List.pairwise_flatten] at hflatten
  refine hflatten.2.imp_of_mem ?_
  intro left right hleft hright hlt
  obtain ⟨last, hlast, hlastKey⟩ := lastKey_mem key (hne left hleft)
  obtain ⟨first, hfirst, hfirstKey⟩ :=
    firstKey_mem key (hne right hright)
  rw [← hlastKey, ← hfirstKey]
  exact hlt last hlast first hfirst

theorem firstKey_congr {Row Other : Type*} {key : Row → ℕ} {otherKey : Other → ℕ}
    {rows : List Row} {others : List Other}
    (hkeys : rows.map key = others.map otherKey) :
    firstKey key rows = firstKey otherKey others := by
  rw [firstKey, firstKey, ← List.head?_map, ← List.head?_map, hkeys]

theorem lastKey_congr {Row Other : Type*} {key : Row → ℕ} {otherKey : Other → ℕ}
    {rows : List Row} {others : List Other}
    (hkeys : rows.map key = others.map otherKey) :
    lastKey key rows = lastKey otherKey others := by
  rw [lastKey, lastKey, ← List.getLast?_map, ← List.getLast?_map, hkeys]

theorem firstKey_le_lastKey {Row : Type*} {key : Row → ℕ} {group : List Row}
    (hgroup : Increasing key group) (hne : group ≠ []) :
    firstKey key group ≤ lastKey key group := by
  obtain ⟨first, hfirst, hkey⟩ := firstKey_mem key hne
  rw [← hkey]
  exact (hgroup.key_mem_range hfirst).2

/-! ## Pending leaf chunks -/

/-- The context items in the ordinal range of a group of raw rows. -/
def leafRange (db : Db) (conversation : ConversationId) (group : List RawRow) :
    List ContextItem :=
  db.rangeItems conversation (firstKey RawRow.ordinal group)
    (lastKey RawRow.ordinal group)

/-- A group still holds all the message items of its ordinal range. -/
structure LeafPending (db : Db) (conversation : ConversationId)
    (group : List RawRow) : Prop where
  nonempty : group ≠ []
  rows : (leafRange db conversation group).filterMap (rawRow db) = group

theorem filterMap_rangeItems (db : Db) (conversation : ConversationId)
    (low high : ℕ) :
    (db.rangeItems conversation low high).filterMap (rawRow db) =
      (rawRows db conversation).filter (inRange RawRow.ordinal low high) :=
  filterMap_rawRow_filter db
    (fun ordinal => decide (low ≤ ordinal) && decide (ordinal ≤ high)) _

theorem LeafPending.subset {db : Db} {conversation : ConversationId}
    {group : List RawRow} (hgroup : LeafPending db conversation group) :
    group ⊆ rawRows db conversation := by
  intro raw hraw
  rw [← hgroup.rows, leafRange, filterMap_rangeItems] at hraw
  exact (List.mem_filter.mp hraw).1

theorem LeafPending.increasing {db : Db} (hdb : db.Consistent)
    {conversation : ConversationId} {group : List RawRow}
    (hgroup : LeafPending db conversation group) :
    Increasing RawRow.ordinal group := by
  rw [← hgroup.rows]
  exact increasing_filterMap_rawRow ((hdb.increasing_items conversation).filter _)

theorem LeafPending.range_le {db : Db} (hdb : db.Consistent)
    {conversation : ConversationId} {group : List RawRow}
    (hgroup : LeafPending db conversation group) :
    firstKey RawRow.ordinal group ≤ lastKey RawRow.ordinal group :=
  firstKey_le_lastKey (hgroup.increasing hdb) hgroup.nonempty

theorem eligibleRows_start (cfg : LcmConfig) (raw : List RawRow) :
    eligibleRows cfg raw <+: raw :=
  List.take_prefix _ _

theorem loadLeafGroups_slice {db : Db} {conversation : ConversationId}
    {cfg : LcmConfig} {group : List RawRow}
    (hgroup : group ∈ loadLeafGroups db conversation cfg) :
    group <:+: eligibleRows cfg (rawRows db conversation) := by
  simpa only [List.nil_append] using leafGroups_slice hgroup

/-- Every loaded group is pending. -/
theorem leafPending_of_load {db : Db} (hdb : db.Consistent)
    {conversation : ConversationId} {cfg : LcmConfig} {group : List RawRow}
    (hgroup : group ∈ loadLeafGroups db conversation cfg) :
    LeafPending db conversation group := by
  have hne : group ≠ [] := leafGroups_ne_nil hgroup
  obtain ⟨before, after, hraw⟩ := (loadLeafGroups_slice hgroup).trans
    (eligibleRows_start cfg _).isInfix
  refine ⟨hne, ?_⟩
  rw [leafRange, filterMap_rangeItems]
  have hincreasing := hdb.increasing_rawRows conversation
  rw [← hraw] at hincreasing ⊢
  exact hincreasing.filter_inRange hne

theorem loadLeafGroups_flatten (db : Db) (conversation : ConversationId)
    (cfg : LcmConfig) :
    (loadLeafGroups db conversation cfg).flatten =
      (eligibleRows cfg (rawRows db conversation)).filter fun raw =>
        decide (some raw.ordinal ≠ pinnedOrdinal (rawRows db conversation)) :=
  flatten_leafGroups _ [] 0

theorem loadLeafGroups_pairwise {db : Db} (hdb : db.Consistent)
    (conversation : ConversationId) (cfg : LcmConfig) :
    (loadLeafGroups db conversation cfg).Pairwise fun left right =>
      lastKey RawRow.ordinal left < firstKey RawRow.ordinal right := by
  apply pairwise_ranges
  · rw [loadLeafGroups_flatten]
    exact ((hdb.increasing_rawRows conversation).sublist
      (eligibleRows_start cfg _).sublist).filter _
  · intro group hgroup
    exact leafGroups_ne_nil hgroup

/-- What a leaf summary row records about its group. -/
structure SummarizesGroup (conversation : ConversationId) (group : List RawRow)
    (row : SummaryRow) : Prop where
  conversationId : row.conversationId = conversation
  kind : row.kind = .leaf
  depth : row.depth = 0
  earliestAt : row.earliestAt = earliest (group.map (·.row.createdAt))
  latestAt : row.latestAt = latest (group.map (·.row.createdAt))
  descendantCount : row.descendantCount = group.length
  descendantTokenCount :
    row.descendantTokenCount = (group.map (·.row.tokenCount)).sum
  sourceMessageTokenCount :
    row.sourceMessageTokenCount = (group.map (·.row.tokenCount)).sum

theorem chunkRow_ok {raw : RawRow} {row : ChunkRow}
    (hrow : chunkRow raw = .ok row) :
    row.ordinal = raw.ordinal ∧ row.messageId = raw.row.messageId ∧
      row.tokenCount = raw.row.tokenCount ∧
      row.createdAt = raw.row.createdAt := by
  unfold chunkRow at hrow
  cases hmessage : reconstructMessage raw.row with
  | error error => simp [hmessage, bind, Except.bind] at hrow
  | ok message =>
      simp only [hmessage, bind, Except.bind, Except.ok.injEq] at hrow
      subst hrow
      exact ⟨rfl, rfl, rfl, rfl⟩

theorem mapM_ok_forall₂ {Source Target Error : Type*}
    {f : Source → Except Error Target} {sources : List Source}
    {targets : List Target} (hmap : sources.mapM f = .ok targets) :
    List.Forall₂ (fun source target => f source = .ok target) sources targets := by
  induction sources generalizing targets with
  | nil =>
      simp only [List.mapM_nil, pure, Except.pure, Except.ok.injEq] at hmap
      subst hmap
      exact .nil
  | cons source sources ih =>
      rw [List.mapM_cons] at hmap
      cases hsource : f source with
      | error error => simp [hsource, bind, Except.bind] at hmap
      | ok target =>
          cases hsources : sources.mapM f with
          | error error => simp [hsource, hsources, bind, Except.bind] at hmap
          | ok rest =>
              simp only [hsource, hsources, bind, Except.bind, pure, Except.pure,
                Except.ok.injEq] at hmap
              subst hmap
              exact .cons hsource (ih hsources)

theorem map_eq_of_forall₂ {Left Right Value : Type*} {f : Left → Value}
    {g : Right → Value} {related : Left → Right → Prop} {lefts : List Left}
    {rights : List Right} (hrelated : List.Forall₂ related lefts rights)
    (hvalue : ∀ left right, related left right → g right = f left) :
    rights.map g = lefts.map f := by
  induction hrelated with
  | nil => rfl
  | cons hhead _ ih => rw [List.map_cons, List.map_cons, hvalue _ _ hhead, ih]

/-- The rows of a chunk are those of its group, with their messages rebuilt. -/
theorem leafChunk_ok {group : List RawRow} {chunk : LeafChunk}
    (hchunk : leafChunk group = .ok chunk) :
    List.Forall₂ (fun raw row => chunkRow raw = .ok row) group chunk.rows := by
  unfold leafChunk at hchunk
  cases hrows : group.mapM chunkRow with
  | error error => simp [hrows, bind, Except.bind] at hchunk
  | ok rows =>
      simp only [hrows, bind, Except.bind, Except.ok.injEq] at hchunk
      rw [← hchunk]
      exact mapM_ok_forall₂ hrows

theorem leafChunk_ordinals {group : List RawRow} {chunk : LeafChunk}
    (hchunk : leafChunk group = .ok chunk) :
    chunk.rows.map ChunkRow.ordinal = group.map RawRow.ordinal :=
  map_eq_of_forall₂ (leafChunk_ok hchunk) fun _ _ h => (chunkRow_ok h).1

/-- A leaf write that commits is a summary of its group. -/
theorem writeLeafSummary_ok {sha256 : List UInt8 → List UInt8} {db after : Db}
    {conversation : ConversationId} {group : List RawRow} {chunk : LeafChunk}
    {outcome : EscalationOutcome} (hchunk : leafChunk group = .ok chunk)
    (hwrite : writeLeafSummary sha256 db conversation chunk outcome =
      .ok after) :
    ∃ row, SummarizesGroup conversation group row ∧
      db.findSummary row.summaryId = none ∧
      after = db.withSummary row (group.map (·.row.messageId)) []
        (firstKey RawRow.ordinal group) (lastKey RawRow.ordinal group) := by
  have hrelated := leafChunk_ok hchunk
  have hordinals := leafChunk_ordinals hchunk
  have hids : chunk.rows.map ChunkRow.messageId = group.map (·.row.messageId) :=
    map_eq_of_forall₂ hrelated fun _ _ h => (chunkRow_ok h).2.1
  have htokens : chunk.rows.map ChunkRow.tokenCount =
      group.map (·.row.tokenCount) :=
    map_eq_of_forall₂ hrelated fun _ _ h => (chunkRow_ok h).2.2.1
  have htimes : chunk.rows.map ChunkRow.createdAt =
      group.map (·.row.createdAt) :=
    map_eq_of_forall₂ hrelated fun _ _ h => (chunkRow_ok h).2.2.2
  have hlength : chunk.rows.length = group.length := by
    simpa using congrArg List.length hordinals
  obtain ⟨hfresh, hafter⟩ := insertSummary_ok hwrite
  refine ⟨_, ?_, hfresh, ?_⟩
  · exact ⟨rfl, rfl, rfl, congrArg earliest htimes, congrArg latest htimes,
      hlength, congrArg List.sum htokens, congrArg List.sum htokens⟩
  · rw [hafter]
    simp only [hids, firstKey_congr hordinals, lastKey_congr hordinals]

theorem leafRange_withSummary {db : Db} (hdb : db.Consistent)
    {row : SummaryRow} {sources : List MessageId} {children : List SummaryId}
    {low high : ℕ} (hrange : low ≤ high) {group : List RawRow}
    (hdisjoint : high < firstKey RawRow.ordinal group) :
    leafRange (db.withSummary row sources children low high)
        row.conversationId group =
      leafRange db row.conversationId group :=
  rangeItems_withSummary hdb hrange hdisjoint

/-- A pending group outlives a write at a lower range. -/
theorem LeafPending.withSummary {db : Db} (hdb : db.Consistent)
    {row : SummaryRow} {sources : List MessageId} {children : List SummaryId}
    {low high : ℕ} (hrange : low ≤ high) {group : List RawRow}
    (hdisjoint : high < firstKey RawRow.ordinal group)
    (hgroup : LeafPending db row.conversationId group) :
    LeafPending (db.withSummary row sources children low high)
      row.conversationId group := by
  refine ⟨hgroup.nonempty, ?_⟩
  rw [leafRange_withSummary hdb hrange hdisjoint]
  refine (List.filterMap_congr ?_).trans hgroup.rows
  intro item hitem
  exact extends_withSummary.rawRow_eq
    (hdb.items item (Db.mem_orderedItems.mp (List.mem_filter.mp hitem).1).1)

/-- Writing one group keeps the groups after it pending. -/
theorem LeafPending.keeps {db : Db} (hdb : db.Consistent)
    {conversation : ConversationId} {group later : List RawRow}
    (hgroup : LeafPending db conversation group) {row : SummaryRow}
    (hrow : SummarizesGroup conversation group row)
    (hdisjoint : lastKey RawRow.ordinal group < firstKey RawRow.ordinal later)
    (hlater : LeafPending db conversation later) :
    LeafPending (db.withSummary row (group.map (·.row.messageId)) []
      (firstKey RawRow.ordinal group) (lastKey RawRow.ordinal group))
      conversation later := by
  rw [← hrow.conversationId] at hlater ⊢
  exact hlater.withSummary hdb (hgroup.range_le hdb) hdisjoint

section LeafPass

variable {P : Db → Prop} {Q : List ContextItem → Prop}
  {conversation : ConversationId}

/-- The leaf pass keeps what every leaf write keeps. -/
theorem leafPass_preserves (sha256 : List UInt8 → List UInt8)
    (hconsistent : ∀ db, P db → db.Consistent)
    (hwrite : ∀ db group row, P db → LeafPending db conversation group →
      Q (leafRange db conversation group) →
      SummarizesGroup conversation group row →
      db.findSummary row.summaryId = none →
      P (db.withSummary row (group.map (·.row.messageId)) []
        (firstKey RawRow.ordinal group) (lastKey RawRow.ordinal group)))
    {groups : List (List RawRow)} {chunks : List LeafChunk}
    (hchunks : List.Forall₂ (fun group chunk => leafChunk group = .ok chunk)
      groups chunks)
    (hdisjoint : groups.Pairwise fun left right =>
      lastKey RawRow.ordinal left < firstKey RawRow.ordinal right)
    (outcomes : List EscalationOutcome) {db : Db} (hdb : P db)
    (hpending : ∀ group ∈ groups, LeafPending db conversation group)
    (hrange : ∀ group ∈ groups, Q (leafRange db conversation group)) :
    P (leafPass sha256 conversation chunks outcomes db).db := by
  induction hchunks generalizing outcomes db with
  | nil => exact hdb
  | @cons group chunk groups chunks hchunk hchunks ih =>
      cases outcomes with
      | nil => exact hdb
      | cons outcome outcomes =>
          rw [leafPass]
          split
          · exact hdb
          · next after hafter =>
              obtain ⟨row, hrow, hfresh, rfl⟩ :=
                writeLeafSummary_ok hchunk hafter
              obtain ⟨hfirst, hlater⟩ := List.pairwise_cons.mp hdisjoint
              have hconsistent' := hconsistent db hdb
              have hgroup := hpending group List.mem_cons_self
              have hle := hgroup.range_le hconsistent'
              have howner := hrow.conversationId
              apply ih hlater
              · exact hwrite db group row hdb hgroup
                  (hrange group List.mem_cons_self) hrow hfresh
              · intro later hlater'
                exact hgroup.keeps hconsistent' hrow (hfirst later hlater')
                  (hpending later (List.mem_cons_of_mem _ hlater'))
              · intro later hlater'
                rw [← howner, leafRange_withSummary hconsistent' hle
                  (hfirst later hlater'), howner]
                exact hrange later (List.mem_cons_of_mem _ hlater')

end LeafPass

/-! ## Pending condensed chunks -/

/-- The condensed row of a summary item. -/
def condensedRowOf (db : Db) (item : ContextItem) : Option CondensedRow :=
  match item.ref with
  | .message _ => none
  | .summary id => (db.findSummary id).map (condensedRow item.ordinal)

theorem condensedEntry_ok {db : Db} {item : ContextItem}
    {entry : Option CondensedRow} (hentry : condensedEntry db item = .ok entry) :
    entry = condensedRowOf db item := by
  unfold condensedEntry at hentry
  unfold condensedRowOf
  cases hitem : item.ref with
  | message id =>
      rw [hitem] at hentry
      cases hentry
      rfl
  | summary id =>
      rw [hitem] at hentry
      cases hfind : db.findSummary id with
      | none => simp [hfind] at hentry
      | some row =>
          simp only [hfind, Except.ok.injEq] at hentry
          simp only [hfind, Option.map_some, hentry]

theorem condensedRowOf_eq_some {db : Db} {item : ContextItem}
    {row : CondensedRow} (hrow : condensedRowOf db item = some row) :
    ∃ summary, db.findSummary row.summaryId = some summary ∧
      item.ref = .summary row.summaryId ∧
      row = condensedRow item.ordinal summary := by
  unfold condensedRowOf at hrow
  cases hitem : item.ref with
  | message id => simp [hitem] at hrow
  | summary id =>
      rw [hitem] at hrow
      obtain ⟨summary, hfind, rfl⟩ := Option.map_eq_some_iff.mp hrow
      obtain ⟨_, hid⟩ := Db.mem_of_findSummary hfind
      refine ⟨summary, ?_, ?_, rfl⟩
      · rw [condensedRow, hid]
        exact hfind
      · rw [condensedRow, hid]

theorem Db.Extends.condensedRowOf_eq {before after : Db}
    (hext : before.Extends after) {item : ContextItem}
    (hitem : before.Resolves item) :
    condensedRowOf after item = condensedRowOf before item := by
  unfold Db.Resolves at hitem
  cases hitem' : item.ref with
  | message id => simp only [condensedRowOf, hitem']
  | summary id =>
      rw [hitem'] at hitem
      obtain ⟨row, hfind⟩ := hitem
      simp only [condensedRowOf, hitem', hfind, hext.summaries hfind]

section CondensedRuns

variable {cfg : LcmConfig}

theorem mem_flushRun {rows : List CondensedRow} {depth : Option ℕ} {tokens : ℕ}
    {chunk : CondensedChunk} (hchunk : chunk ∈ flushRun cfg rows depth tokens) :
    chunk.rows = rows ∧ depth = some chunk.depth ∧
      cfg.minCondensedFanout ≤ rows.length := by
  unfold flushRun at hchunk
  cases depth with
  | none => simp at hchunk
  | some depth =>
      simp only at hchunk
      split at hchunk
      · next hfits =>
          rw [List.mem_singleton.mp hchunk]
          exact ⟨rfl, rfl, hfits.1⟩
      · simp at hchunk

/-- What the walk knows of the run it is collecting. -/
structure RunState (current : List CondensedRow) (depth : Option ℕ) : Prop where
  nonempty : depth ≠ none → current ≠ []
  depths : ∀ row ∈ current, depth = some row.depth

theorem RunState.empty : RunState [] none :=
  ⟨fun hne => absurd rfl hne, by simp⟩

theorem RunState.single (row : CondensedRow) :
    RunState [row] (some row.depth) :=
  ⟨by simp, by simp⟩

theorem RunState.grow {current : List CondensedRow} {row : CondensedRow}
    (hstate : RunState current (some row.depth)) :
    RunState (current ++ [row]) (some row.depth) := by
  refine ⟨by simp, ?_⟩
  intro other hother
  rcases List.mem_append.mp hother with hold | hnew
  · exact hstate.depths other hold
  · rw [List.mem_singleton.mp hnew]

theorem condensedRuns_rows {entries : List (Option CondensedRow)}
    {current : List CondensedRow} {depth : Option ℕ} {tokens : ℕ}
    (hstate : RunState current depth) {chunk : CondensedChunk}
    (hchunk : chunk ∈ condensedRuns cfg entries current depth tokens) :
    chunk.rows ≠ [] ∧ (∀ row ∈ chunk.rows, row.depth = chunk.depth) ∧
      cfg.minCondensedFanout ≤ chunk.rows.length := by
  have hflush : ∀ {rows : List CondensedRow} {depth : Option ℕ} {tokens : ℕ},
      RunState rows depth → chunk ∈ flushRun cfg rows depth tokens →
      chunk.rows ≠ [] ∧ (∀ row ∈ chunk.rows, row.depth = chunk.depth) ∧
        cfg.minCondensedFanout ≤ chunk.rows.length := by
    intro rows depth tokens hstate hmem
    obtain ⟨rfl, rfl, hfanout⟩ := mem_flushRun hmem
    refine ⟨hstate.nonempty (by simp), ?_, hfanout⟩
    intro row hrow
    exact (Option.some.inj (hstate.depths row hrow)).symm
  fun_induction condensedRuns cfg entries current depth tokens with
  | case1 current depth tokens => exact hflush hstate hchunk
  | case2 rest current depth tokens ih =>
      rcases List.mem_append.mp hchunk with hnow | hlater
      · exact hflush hstate hnow
      · exact ih RunState.empty hlater
  | case3 row rest current tokens ih => exact ih hstate.grow hchunk
  | case4 row rest current depth tokens _ ih =>
      rcases List.mem_append.mp hchunk with hnow | hlater
      · exact hflush hstate hnow
      · exact ih (RunState.single row) hlater

/-- The rows of a chunk are a contiguous slice of the context. -/
theorem condensedRuns_slice {entries : List (Option CondensedRow)}
    {current : List CondensedRow} {depth : Option ℕ} {tokens : ℕ}
    {chunk : CondensedChunk}
    (hchunk : chunk ∈ condensedRuns cfg entries current depth tokens) :
    chunk.rows.map some <:+: current.map some ++ entries := by
  fun_induction condensedRuns cfg entries current depth tokens with
  | case1 current depth tokens =>
      rw [(mem_flushRun hchunk).1]
      exact (List.prefix_append _ _).isInfix
  | case2 rest current depth tokens ih =>
      rcases List.mem_append.mp hchunk with hnow | hlater
      · rw [(mem_flushRun hnow).1]
        exact (List.prefix_append _ _).isInfix
      · exact (ih hlater).trans
          ((List.suffix_cons none rest).trans (List.suffix_append _ _)).isInfix
  | case3 row rest current tokens ih =>
      simpa only [List.map_append, List.map_cons, List.map_nil,
        List.append_assoc, List.singleton_append] using ih hchunk
  | case4 row rest current depth tokens _ ih =>
      rcases List.mem_append.mp hchunk with hnow | hlater
      · rw [(mem_flushRun hnow).1]
        exact (List.prefix_append _ _).isInfix
      · exact (ih hlater).trans (List.suffix_append (current.map some) _).isInfix

/-- The chunks together are a selection of the summaries, in order. -/
theorem condensedRuns_sublist (entries : List (Option CondensedRow))
    (current : List CondensedRow) (depth : Option ℕ) (tokens : ℕ) :
    ((condensedRuns cfg entries current depth tokens).map
      CondensedChunk.rows).flatten.Sublist (current ++ entries.reduceOption) := by
  have hflush : ∀ (rows : List CondensedRow) (depth : Option ℕ) (tokens : ℕ),
      ((flushRun cfg rows depth tokens).map
        CondensedChunk.rows).flatten.Sublist rows := by
    intro rows depth tokens
    unfold flushRun
    cases depth with
    | none => simp
    | some depth =>
        simp only
        split
        · simp
        · simp
  fun_induction condensedRuns cfg entries current depth tokens with
  | case1 current depth tokens =>
      rw [List.reduceOption_nil, List.append_nil]
      exact hflush current depth tokens
  | case2 rest current depth tokens ih =>
      rw [List.map_append, List.flatten_append, List.reduceOption_cons_of_none]
      exact (hflush current depth tokens).append ih
  | case3 row rest current tokens ih =>
      simpa only [List.reduceOption_cons_of_some, List.append_assoc,
        List.singleton_append] using ih
  | case4 row rest current depth tokens _ ih =>
      rw [List.map_append, List.flatten_append, List.reduceOption_cons_of_some]
      exact (hflush current depth tokens).append ih

end CondensedRuns

/-- The context items in the ordinal range of a condensed chunk. -/
def condensedRange (db : Db) (conversation : ConversationId)
    (chunk : CondensedChunk) : List ContextItem :=
  db.rangeItems conversation (firstKey CondensedRow.ordinal chunk.rows)
    (lastKey CondensedRow.ordinal chunk.rows)

/-- A chunk still holds all the items of its ordinal range. -/
structure CondensedPending (db : Db) (conversation : ConversationId)
    (chunk : CondensedChunk) : Prop where
  nonempty : chunk.rows ≠ []
  depths : ∀ row ∈ chunk.rows, row.depth = chunk.depth
  rows : (condensedRange db conversation chunk).map (condensedRowOf db) =
    chunk.rows.map some

theorem forall₂_of_map_eq {Item Row : Type*} {f : Item → Option Row}
    {items : List Item} {rows : List Row} (hmap : items.map f = rows.map some) :
    List.Forall₂ (fun item row => f item = some row) items rows := by
  have hequal : List.Forall₂ (· = ·) (items.map f) (rows.map some) := by
    rw [List.forall₂_eq_eq_eq]
    exact hmap
  rwa [List.forall₂_map_left_iff, List.forall₂_map_right_iff] at hequal

theorem condensed_ordinals {db : Db} {items : List ContextItem}
    {rows : List CondensedRow}
    (hmap : items.map (condensedRowOf db) = rows.map some) :
    rows.map CondensedRow.ordinal = items.map ContextItem.ordinal := by
  apply map_eq_of_forall₂ (forall₂_of_map_eq hmap)
  intro item row hrow
  obtain ⟨summary, _, _, hrow'⟩ := condensedRowOf_eq_some hrow
  rw [hrow', condensedRow]

theorem condensed_ids {db : Db} {items : List ContextItem}
    {rows : List CondensedRow}
    (hmap : items.map (condensedRowOf db) = rows.map some) :
    items.map ContextItem.ref =
      rows.map fun row => ItemRef.summary row.summaryId := by
  refine (map_eq_of_forall₂ (forall₂_of_map_eq hmap) ?_).symm
  intro item row hrow
  obtain ⟨summary, _, href, _⟩ := condensedRowOf_eq_some hrow
  exact href.symm

theorem loadCondensedChunks_ok {db : Db} {conversation : ConversationId}
    {cfg : LcmConfig} {chunks : List CondensedChunk}
    (hload : loadCondensedChunks db conversation cfg = .ok chunks) :
    chunks = condensedRuns cfg
      ((db.orderedItems conversation).map (condensedRowOf db)) [] none 0 := by
  unfold loadCondensedChunks at hload
  cases hraw : (db.orderedItems conversation).mapM (condensedEntry db) with
  | error error => simp [hraw, bind, Except.bind] at hload
  | ok raw =>
      simp only [hraw, bind, Except.bind, Except.ok.injEq] at hload
      have hmap := map_eq_of_forall₂ (g := id) (mapM_ok_forall₂ hraw)
        fun _ _ h => condensedEntry_ok h
      rw [List.map_id] at hmap
      rw [← hload, hmap]

/-- Every loaded chunk is pending. -/
theorem condensedPending_of_load {db : Db} (hdb : db.Consistent)
    {conversation : ConversationId} {cfg : LcmConfig}
    {chunks : List CondensedChunk}
    (hload : loadCondensedChunks db conversation cfg = .ok chunks)
    {chunk : CondensedChunk} (hchunk : chunk ∈ chunks) :
    CondensedPending db conversation chunk := by
  rw [loadCondensedChunks_ok hload] at hchunk
  obtain ⟨hne, hdepths, _⟩ := condensedRuns_rows RunState.empty hchunk
  obtain ⟨before, after, hentries⟩ := condensedRuns_slice hchunk
  rw [List.map_nil, List.nil_append] at hentries
  obtain ⟨front, suffix, hitems, hfront, _⟩ :=
    List.map_eq_append_iff.mp hentries.symm
  obtain ⟨first, items, rfl, _, hrows⟩ := List.map_eq_append_iff.mp hfront
  have hitemsNe : items ≠ [] := by
    intro hnil
    rw [hnil, List.map_nil, eq_comm, List.map_eq_nil_iff] at hrows
    exact hne hrows
  have hordinals := condensed_ordinals hrows
  refine ⟨hne, hdepths, ?_⟩
  have hincreasing := hdb.increasing_items conversation
  rw [condensedRange, Db.rangeItems, firstKey_congr hordinals,
    lastKey_congr hordinals]
  rw [hitems] at hincreasing ⊢
  rw [hincreasing.filter_inRange hitemsNe]
  exact hrows

theorem loadCondensedChunks_pairwise {db : Db} (hdb : db.Consistent)
    {conversation : ConversationId} {cfg : LcmConfig}
    {chunks : List CondensedChunk}
    (hload : loadCondensedChunks db conversation cfg = .ok chunks) :
    chunks.Pairwise fun left right =>
      lastKey CondensedRow.ordinal left.rows <
        firstKey CondensedRow.ordinal right.rows := by
  have hchunks := loadCondensedChunks_ok hload
  have hsublist := @condensedRuns_sublist cfg
    ((db.orderedItems conversation).map (condensedRowOf db)) [] none 0
  rw [← hchunks, List.nil_append, List.reduceOption, List.filterMap_map]
    at hsublist
  have hincreasing : Increasing CondensedRow.ordinal
      ((db.orderedItems conversation).filterMap
        (id ∘ condensedRowOf db)) := by
    refine List.Pairwise.filterMap _ ?_ (hdb.increasing_items conversation)
    intro left right hlt first hfirst second hsecond
    obtain ⟨_, _, _, hleft⟩ := condensedRowOf_eq_some hfirst
    obtain ⟨_, _, _, hright⟩ := condensedRowOf_eq_some hsecond
    rw [hleft, hright]
    exact hlt
  have hpairwise := pairwise_ranges (hincreasing.sublist hsublist) (by
    intro group hgroup
    obtain ⟨chunk, hchunk, rfl⟩ := List.mem_map.mp hgroup
    exact (condensedPending_of_load hdb hload hchunk).nonempty)
  exact List.pairwise_map.mp hpairwise

/-- What a condensed summary row records about its chunk. -/
structure SummarizesChunk (conversation : ConversationId)
    (chunk : CondensedChunk) (row : SummaryRow) : Prop where
  conversationId : row.conversationId = conversation
  kind : row.kind = .condensed
  depth : row.depth = chunk.depth + 1
  earliestAt : row.earliestAt = earliest (chunk.rows.map CondensedRow.earliestAt)
  latestAt : row.latestAt = latest (chunk.rows.map CondensedRow.latestAt)
  descendantCount : row.descendantCount =
    (chunk.rows.map CondensedRow.descendantCount).sum
  descendantTokenCount : row.descendantTokenCount =
    (chunk.rows.map CondensedRow.descendantTokenCount).sum
  sourceMessageTokenCount : row.sourceMessageTokenCount =
    (chunk.rows.map CondensedRow.sourceMessageTokenCount).sum

/-- A condensed write that commits is a summary of its chunk. -/
theorem writeCondensedSummary_ok {sha256 : List UInt8 → List UInt8}
    {db after : Db} {conversation : ConversationId} {chunk : CondensedChunk}
    {outcome : EscalationOutcome}
    (hwrite : writeCondensedSummary sha256 db conversation chunk outcome =
      .ok after) :
    ∃ row, SummarizesChunk conversation chunk row ∧
      db.findSummary row.summaryId = none ∧
      after = db.withSummary row [] (chunk.rows.map CondensedRow.summaryId)
        (firstKey CondensedRow.ordinal chunk.rows)
        (lastKey CondensedRow.ordinal chunk.rows) := by
  obtain ⟨hfresh, hafter⟩ := insertSummary_ok hwrite
  exact ⟨_, ⟨rfl, rfl, rfl, rfl, rfl, rfl, rfl, rfl⟩, hfresh, hafter⟩

theorem CondensedPending.range_le {db : Db} (hdb : db.Consistent)
    {conversation : ConversationId} {chunk : CondensedChunk}
    (hchunk : CondensedPending db conversation chunk) :
    firstKey CondensedRow.ordinal chunk.rows ≤
      lastKey CondensedRow.ordinal chunk.rows := by
  apply firstKey_le_lastKey _ hchunk.nonempty
  have hincreasing : Increasing ContextItem.ordinal
      (condensedRange db conversation chunk) :=
    (hdb.increasing_items conversation).filter _
  rw [Increasing, ← List.pairwise_map] at hincreasing ⊢
  rw [condensed_ordinals hchunk.rows]
  exact hincreasing

/-- A pending chunk outlives a write at a lower range. -/
theorem CondensedPending.withSummary {db : Db} (hdb : db.Consistent)
    {row : SummaryRow} {sources : List MessageId} {children : List SummaryId}
    {low high : ℕ} (hrange : low ≤ high) {chunk : CondensedChunk}
    (hdisjoint : high < firstKey CondensedRow.ordinal chunk.rows)
    (hchunk : CondensedPending db row.conversationId chunk) :
    CondensedPending (db.withSummary row sources children low high)
      row.conversationId chunk := by
  refine ⟨hchunk.nonempty, hchunk.depths, ?_⟩
  rw [condensedRange, rangeItems_withSummary hdb hrange hdisjoint]
  refine (List.map_congr_left ?_).trans hchunk.rows
  intro item hitem
  exact extends_withSummary.condensedRowOf_eq
    (hdb.items item (Db.mem_orderedItems.mp (List.mem_filter.mp hitem).1).1)

/-- The chunks of a batch are pending and disjoint. -/
theorem condensedBatch_pending {db : Db} (hdb : db.Consistent)
    {conversation : ConversationId} {cfg : LcmConfig}
    {pending chunks : List CondensedChunk}
    (hpending : ∀ chunk ∈ pending, CondensedPending db conversation chunk)
    (hdisjoint : pending.Pairwise fun left right =>
      lastKey CondensedRow.ordinal left.rows <
        firstKey CondensedRow.ordinal right.rows)
    (hbatch : condensedBatch db conversation cfg pending = .ok chunks) :
    (∀ chunk ∈ chunks, CondensedPending db conversation chunk) ∧
      chunks.Pairwise fun left right =>
        lastKey CondensedRow.ordinal left.rows <
          firstKey CondensedRow.ordinal right.rows := by
  unfold condensedBatch at hbatch
  split at hbatch
  · exact ⟨fun chunk hchunk => condensedPending_of_load hdb hbatch hchunk,
      loadCondensedChunks_pairwise hdb hbatch⟩
  · cases hbatch
    exact ⟨hpending, hdisjoint⟩

section Cycle

variable {P : Db → Prop} {Q : List ContextItem → Prop}
  {conversation : ConversationId}

/-- The condensed loop keeps what every condensed write keeps. -/
theorem condensedPass_preserves (sha256 : List UInt8 → List UInt8)
    (cfg : LcmConfig) (hconsistent : ∀ db, P db → db.Consistent)
    (hwrite : ∀ db chunk row, P db → CondensedPending db conversation chunk →
      SummarizesChunk conversation chunk row →
      db.findSummary row.summaryId = none →
      P (db.withSummary row [] (chunk.rows.map CondensedRow.summaryId)
        (firstKey CondensedRow.ordinal chunk.rows)
        (lastKey CondensedRow.ordinal chunk.rows)))
    (outcomes : List EscalationOutcome) {pending : List CondensedChunk} {db : Db}
    (hdb : P db)
    (hpending : ∀ chunk ∈ pending, CondensedPending db conversation chunk)
    (hdisjoint : pending.Pairwise fun left right =>
      lastKey CondensedRow.ordinal left.rows <
        firstKey CondensedRow.ordinal right.rows) :
    P (condensedPass sha256 conversation cfg outcomes pending db).db := by
  fun_induction condensedPass sha256 conversation cfg outcomes pending db with
  | case1 => exact hdb
  | case2 => exact hdb
  | case3 => exact hdb
  | case4 => exact hdb
  | case5 pending db chunk chunks outcome outcomes hbatch after hafter ih =>
      have hconsistent' := hconsistent db hdb
      obtain ⟨hbatchPending, hbatchDisjoint⟩ :=
        condensedBatch_pending hconsistent' hpending hdisjoint hbatch
      obtain ⟨row, hrow, hfresh, rfl⟩ := writeCondensedSummary_ok hafter
      obtain ⟨hfirst, hlater⟩ := List.pairwise_cons.mp hbatchDisjoint
      have hchunk := hbatchPending chunk List.mem_cons_self
      have howner := hrow.conversationId
      apply ih
      · exact hwrite db chunk row hdb hchunk hrow hfresh
      · intro later hlater'
        rw [← howner]
        apply CondensedPending.withSummary hconsistent'
          (hchunk.range_le hconsistent') (hfirst later hlater')
        rw [howner]
        exact hbatchPending later (List.mem_cons_of_mem _ hlater')
      · exact hlater

/-- A cycle keeps a property that its leaf writes and its condensed writes
keep.  `Q` is what the ranges of the loaded leaf groups are known to hold. -/
theorem runCompaction_preserves (sha256 : List UInt8 → List UInt8)
    (cfg : LcmConfig) (hconsistent : ∀ db, P db → db.Consistent)
    (hleaf : ∀ db group row, P db → LeafPending db conversation group →
      Q (leafRange db conversation group) →
      SummarizesGroup conversation group row →
      db.findSummary row.summaryId = none →
      P (db.withSummary row (group.map (·.row.messageId)) []
        (firstKey RawRow.ordinal group) (lastKey RawRow.ordinal group)))
    (hcondensed : ∀ db chunk row, P db →
      CondensedPending db conversation chunk →
      SummarizesChunk conversation chunk row →
      db.findSummary row.summaryId = none →
      P (db.withSummary row [] (chunk.rows.map CondensedRow.summaryId)
        (firstKey CondensedRow.ordinal chunk.rows)
        (lastKey CondensedRow.ordinal chunk.rows)))
    (outcomes : List EscalationOutcome) {db : Db} (hdb : P db)
    (hrange : ∀ group ∈ loadLeafGroups db conversation cfg,
      Q (leafRange db conversation group)) :
    P (runCompaction sha256 db conversation cfg outcomes).1 := by
  rw [runCompaction, compactionPasses]
  cases hload : loadLeafChunks db conversation cfg with
  | error error => exact hdb
  | ok chunks =>
      have hpass := leafPass_preserves (P := P) (Q := Q) sha256 hconsistent hleaf
        (mapM_ok_forall₂ hload)
        (loadLeafGroups_pairwise (hconsistent db hdb) conversation cfg)
        outcomes hdb
        (fun group hgroup => leafPending_of_load (hconsistent db hdb) hgroup)
        hrange
      cases hleafPass : leafPass sha256 conversation chunks outcomes db with
      | mk after rest =>
          rw [hleafPass] at hpass
          cases rest with
          | none => simpa only [hleafPass] using hpass
          | some rest =>
              simp only [hleafPass]
              exact condensedPass_preserves sha256 cfg hconsistent hcondensed
                rest hpass (by simp) List.Pairwise.nil

end Cycle

end Kitaebot.Lcm
