import Mathlib.Data.List.Nodup
import Mathlib.Logic.Relation
import Mathlib.Order.Bounds.Basic
import Kitaebot.Lcm.Expansion

/-!
# The summary DAG

The summaries of a store form a forest over the messages: a message has at most
one leaf, a summary at most one parent, and the counts and times of a summary
are those of the messages under it.
-/

namespace Kitaebot.Lcm

open OrderedTable

/-- One level down. -/
def IsChild (db : Db) (parent child : SummaryId) : Prop :=
  ⟨child, parent⟩ ∈ db.summaryParents

/-- A source message reachable from a summary. -/
inductive Reaches (db : Db) : SummaryId → MessageId → Prop where
  | source {id : SummaryId} {messageId : MessageId}
      (hlink : ⟨id, messageId⟩ ∈ db.summaryMessages) : Reaches db id messageId
  | child {id child : SummaryId} {messageId : MessageId}
      (hchild : IsChild db id child) (hreaches : Reaches db child messageId) :
      Reaches db id messageId

/-- The metadata of a summary is that of a list of distinct messages. -/
structure Describes (row : SummaryRow) (sources : List MessageRow) : Prop where
  distinct : (sources.map MessageRow.messageId).Nodup
  descendantCount : row.descendantCount = sources.length
  descendantTokenCount :
    row.descendantTokenCount = (sources.map MessageRow.tokenCount).sum
  sourceMessageTokenCount :
    row.sourceMessageTokenCount = (sources.map MessageRow.tokenCount).sum
  earliestAt :
    IsLeast {time | time ∈ sources.map MessageRow.createdAt} row.earliestAt
  latestAt :
    IsGreatest {time | time ∈ sources.map MessageRow.createdAt} row.latestAt

/-- What every reachable store satisfies. -/
structure SummaryDag (db : Db) : Prop where
  leafDepth : ∀ row ∈ db.summaries, row.kind = .leaf → row.depth = 0
  condensedDepth : ∀ row ∈ db.summaries, row.kind = .condensed →
    (∃ child, IsChild db row.summaryId child) ∧
      ∀ child, IsChild db row.summaryId child → ∃ found ∈ db.summaries,
        found.summaryId = child ∧ row.depth = found.depth + 1
  acyclic : ∀ id, ¬ Relation.TransGen (IsChild db) id id
  sourceOnce : (db.summaryMessages.map SummaryMessage.messageId).Nodup
  childOnce : (db.summaryParents.map SummaryParent.summaryId).Nodup
  described : ∀ row ∈ db.summaries, ∃ sources : List MessageRow,
    sources ⊆ db.messages ∧
      (∀ id, Reaches db row.summaryId id ↔
        ∃ source ∈ sources, source.messageId = id) ∧
      Describes row sources

/-! ## Extremes of unions -/

theorem earliest_isLeast {times : List String} (hne : times ≠ []) :
    IsLeast {time | time ∈ times} (earliest times) := by
  unfold earliest
  cases hmin : times.min? with
  | none => exact absurd (List.min?_eq_none_iff.mp hmin) hne
  | some time =>
      obtain ⟨hmem, hle⟩ := List.min?_eq_some_iff.mp hmin
      exact ⟨hmem, hle⟩

theorem latest_isGreatest {times : List String} (hne : times ≠ []) :
    IsGreatest {time | time ∈ times} (latest times) := by
  unfold latest
  cases hmax : times.max? with
  | none => exact absurd (List.max?_eq_none_iff.mp hmax) hne
  | some time =>
      obtain ⟨hmem, hle⟩ := List.max?_eq_some_iff.mp hmax
      exact ⟨hmem, hle⟩

section Union

variable {Part Value : Type*} {parts : List Part} {values : Part → List Value}

/-- The least of the parts' least values is the least of all their values. -/
theorem isLeast_flatMap {Time : Type*} [Preorder Time] {time : Value → Time}
    {first : Part → Time} {bound : Time}
    (hparts : ∀ part ∈ parts,
      IsLeast {t | t ∈ (values part).map time} (first part))
    (hbound : IsLeast {t | t ∈ parts.map first} bound) :
    IsLeast {t | t ∈ (parts.flatMap values).map time} bound := by
  constructor
  · obtain ⟨part, hpart, rfl⟩ := List.mem_map.mp hbound.1
    obtain ⟨value, hvalue, htime⟩ := List.mem_map.mp (hparts part hpart).1
    exact List.mem_map.mpr
      ⟨value, List.mem_flatMap.mpr ⟨part, hpart, hvalue⟩, htime⟩
  · intro t ht
    obtain ⟨value, hvalue, rfl⟩ := List.mem_map.mp ht
    obtain ⟨part, hpart, hmem⟩ := List.mem_flatMap.mp hvalue
    exact (hbound.2 (List.mem_map.mpr ⟨part, hpart, rfl⟩)).trans
      ((hparts part hpart).2 (List.mem_map.mpr ⟨value, hmem, rfl⟩))

theorem isGreatest_flatMap {Time : Type*} [Preorder Time] {time : Value → Time}
    {last : Part → Time} {bound : Time}
    (hparts : ∀ part ∈ parts,
      IsGreatest {t | t ∈ (values part).map time} (last part))
    (hbound : IsGreatest {t | t ∈ parts.map last} bound) :
    IsGreatest {t | t ∈ (parts.flatMap values).map time} bound :=
  @isLeast_flatMap Part Value parts values Timeᵒᵈ _ time last bound hparts hbound

theorem sum_map_flatMap (size : Value → ℕ) {total : Part → ℕ}
    (htotal : ∀ part ∈ parts, total part = ((values part).map size).sum) :
    (parts.map total).sum = ((parts.flatMap values).map size).sum := by
  induction parts with
  | nil => rfl
  | cons part parts ih =>
      rw [List.flatMap_cons, List.map_append, List.sum_append, List.map_cons,
        List.sum_cons, htotal part List.mem_cons_self,
        ih fun other hother => htotal other (List.mem_cons_of_mem _ hother)]

theorem nodup_map_flatMap {Key : Type*} {key : Value → Key}
    (hparts : ∀ part ∈ parts, ((values part).map key).Nodup)
    (hdisjoint : parts.Pairwise fun left right => ∀ value ∈ values left,
      ∀ other ∈ values right, key value ≠ key other) :
    ((parts.flatMap values).map key).Nodup := by
  induction parts with
  | nil => exact List.nodup_nil
  | cons part parts ih =>
      obtain ⟨hhead, htail⟩ := List.pairwise_cons.mp hdisjoint
      rw [List.flatMap_cons, List.map_append, List.nodup_append]
      refine ⟨hparts part List.mem_cons_self,
        ih (fun other hother => hparts other (List.mem_cons_of_mem _ hother))
          htail, ?_⟩
      intro first hfirst second hsecond
      obtain ⟨value, hvalue, rfl⟩ := List.mem_map.mp hfirst
      obtain ⟨other, hother, rfl⟩ := List.mem_map.mp hsecond
      obtain ⟨later, hlater, hmem⟩ := List.mem_flatMap.mp hother
      exact hhead later hlater value hvalue other hmem

end Union

/-! ## The invariant -/

/-- A summary that no other summary covers. -/
def IsRoot (db : Db) (id : SummaryId) : Prop :=
  ∀ link ∈ db.summaryParents, link.summaryId ≠ id

theorem mem_childIds {db : Db} {id child : SummaryId} :
    child ∈ childIds db id ↔ IsChild db id child := by
  unfold childIds IsChild
  constructor
  · intro hchild
    obtain ⟨link, hlink, rfl⟩ := List.mem_map.mp hchild
    obtain ⟨hmem, hid⟩ := List.mem_filter.mp hlink
    rwa [← eq_of_beq hid]
  · intro hlink
    exact List.mem_map.mpr
      ⟨_, List.mem_filter.mpr ⟨hlink, beq_self_eq_true id⟩, rfl⟩

/-- The invariant behind `SummaryDag`: what is in context has no parent, and
summaries without a parent cover disjoint messages. -/
structure DagInvariant (db : Db) : Prop where
  consistent : db.Consistent
  leaves : ∀ row ∈ db.summaries, row.kind = .leaf →
    row.depth = 0 ∧ childIds db row.summaryId = []
  condensed : ∀ row ∈ db.summaries, row.kind = .condensed →
    childIds db row.summaryId ≠ [] ∧
      ∀ child ∈ childIds db row.summaryId, ∃ found,
        db.findSummary child = some found ∧ row.depth = found.depth + 1
  sourceOnce : (db.summaryMessages.map SummaryMessage.messageId).Nodup
  childOnce : (db.summaryParents.map SummaryParent.summaryId).Nodup
  liveMessages : ∀ item ∈ db.contextItems, ∀ link ∈ db.summaryMessages,
    item.ref ≠ .message link.messageId
  liveSummaries : ∀ item ∈ db.contextItems, ∀ link ∈ db.summaryParents,
    item.ref ≠ .summary link.summaryId
  described : ∀ row ∈ db.summaries, Describes row (expand db row.summaryId)
  disjoint : ∀ left ∈ db.summaries, ∀ right ∈ db.summaries,
    IsRoot db left.summaryId → IsRoot db right.summaryId →
    left.summaryId ≠ right.summaryId →
    ∀ source ∈ expand db left.summaryId, ∀ other ∈ expand db right.summaryId,
      source.messageId ≠ other.messageId

theorem dagInvariant_empty : DagInvariant Db.empty where
  consistent := Db.consistent_empty
  leaves := by simp [Db.empty]
  condensed := by simp [Db.empty]
  sourceOnce := by simp [Db.empty]
  childOnce := by simp [Db.empty]
  liveMessages := by simp [Db.empty]
  liveSummaries := by simp [Db.empty]
  described := by simp [Db.empty]
  disjoint := by simp [Db.empty]

/-- A row under a summary is linked to some leaf. -/
theorem mem_expandTo {db : Db} {levels : ℕ} {id : SummaryId}
    {source : MessageRow} (hsource : source ∈ expandTo db levels id) :
    db.findMessage source.messageId = some source ∧
      (∃ link ∈ db.summaryMessages, link.messageId = source.messageId) ∧
      Reaches db id source.messageId := by
  have hsources : ∀ id, source ∈ sourceRows db id →
      db.findMessage source.messageId = some source ∧
        (∃ link ∈ db.summaryMessages, link.messageId = source.messageId) ∧
        Reaches db id source.messageId := by
    intro id hmem
    obtain ⟨link, hlink, hfind⟩ := List.mem_filterMap.mp hmem
    obtain ⟨hlink, hid⟩ := List.mem_filter.mp hlink
    obtain ⟨_, hmessage⟩ := Db.mem_of_findMessage hfind
    rw [hmessage]
    refine ⟨hfind, ⟨link, hlink, rfl⟩, ?_⟩
    rw [← eq_of_beq hid]
    exact .source hlink
  induction levels generalizing id with
  | zero => exact hsources id hsource
  | succ levels ih =>
      rw [expandTo] at hsource
      rcases List.mem_append.mp hsource with hown | hbelow
      · exact hsources id hown
      · obtain ⟨child, hchild, hmem⟩ := List.mem_flatMap.mp hbelow
        obtain ⟨hfind, hlink, hreaches⟩ := ih hmem
        exact ⟨hfind, hlink, .child (mem_childIds.mp hchild) hreaches⟩

theorem sourceRows_subset_expandTo (db : Db) (levels : ℕ) (id : SummaryId) :
    sourceRows db id ⊆ expandTo db levels id := by
  cases levels with
  | zero => exact List.Subset.refl _
  | succ levels => exact List.subset_append_left _ _

/-- The expansion of a summary lists exactly the messages it reaches. -/
theorem DagInvariant.mem_expand {db : Db} (hdb : DagInvariant db)
    {id : SummaryId} {messageId : MessageId} :
    Reaches db id messageId ↔
      ∃ source ∈ expand db id, source.messageId = messageId := by
  constructor
  · intro hreaches
    induction hreaches with
    | @source id messageId hlink =>
        obtain ⟨_, row, hrow⟩ := hdb.consistent.sourceLinks _ hlink
        refine ⟨row, sourceRows_subset_expandTo db _ id ?_,
          (Db.mem_of_findMessage hrow).2⟩
        exact List.mem_filterMap.mpr
          ⟨_, List.mem_filter.mpr ⟨hlink, beq_self_eq_true id⟩, hrow⟩
    | @child id child messageId hchild _ ih =>
        obtain ⟨source, hsource, hid⟩ := ih
        refine ⟨source, ?_, hid⟩
        obtain ⟨_, ⟨parent, hparent⟩⟩ := hdb.consistent.parentLinks _ hchild
        obtain ⟨hmem, hparentId⟩ := Db.mem_of_findSummary hparent
        have hchildIds : child ∈ childIds db parent.summaryId := by
          rw [hparentId]
          exact mem_childIds.mpr hchild
        have hkind : parent.kind = .condensed := by
          cases hkind : parent.kind with
          | leaf =>
              rw [(hdb.leaves parent hmem hkind).2] at hchildIds
              simp at hchildIds
          | condensed => rfl
        obtain ⟨found, hfound, hdepth⟩ :=
          (hdb.condensed parent hmem hkind).2 child hchildIds
        rw [expand, hfound, Option.map_some, Option.getD_some] at hsource
        rw [expand, hparent, Option.map_some, Option.getD_some, hdepth, expandTo]
        exact List.mem_append_right _
          (List.mem_flatMap.mpr ⟨child, mem_childIds.mpr hchild, hsource⟩)
  · rintro ⟨source, hsource, rfl⟩
    exact (mem_expandTo hsource).2.2

/-- Each level of the DAG lowers the depth. -/
theorem DagInvariant.depth_lt {db : Db} (hdb : DagInvariant db)
    {parent child : SummaryId} (hchild : IsChild db parent child) :
    ((db.findSummary child).map SummaryRow.depth).getD 0 <
      ((db.findSummary parent).map SummaryRow.depth).getD 0 := by
  obtain ⟨_, ⟨row, hrow⟩⟩ := hdb.consistent.parentLinks _ hchild
  obtain ⟨hmem, hid⟩ := Db.mem_of_findSummary hrow
  have hchildIds : child ∈ childIds db row.summaryId := by
    rw [hid]
    exact mem_childIds.mpr hchild
  cases hkind : row.kind with
  | leaf =>
      rw [(hdb.leaves row hmem hkind).2] at hchildIds
      simp at hchildIds
  | condensed =>
      obtain ⟨found, hfound, hdepth⟩ :=
        (hdb.condensed row hmem hkind).2 child hchildIds
      rw [hfound, hrow, Option.map_some, Option.map_some, Option.getD_some,
        Option.getD_some, hdepth]
      exact Nat.lt_succ_self _

/-- The invariant gives the properties of the DAG. -/
theorem DagInvariant.summaryDag {db : Db} (hdb : DagInvariant db) :
    SummaryDag db where
  leafDepth := fun row hrow hkind => (hdb.leaves row hrow hkind).1
  condensedDepth := by
    intro row hrow hkind
    obtain ⟨hne, hdepths⟩ := hdb.condensed row hrow hkind
    obtain ⟨child, hchild⟩ := List.exists_mem_of_ne_nil _ hne
    refine ⟨⟨child, mem_childIds.mp hchild⟩, ?_⟩
    intro child hchild
    obtain ⟨found, hfound, hdepth⟩ := hdepths child (mem_childIds.mpr hchild)
    obtain ⟨hmem, hid⟩ := Db.mem_of_findSummary hfound
    exact ⟨found, hmem, hid, hdepth⟩
  acyclic := by
    intro id hcycle
    have hlt : ∀ {low}, Relation.TransGen (IsChild db) id low →
        ((db.findSummary low).map SummaryRow.depth).getD 0 <
          ((db.findSummary id).map SummaryRow.depth).getD 0 := by
      intro low hpath
      induction hpath with
      | single hchild => exact hdb.depth_lt hchild
      | tail _ hchild ih => exact (hdb.depth_lt hchild).trans ih
    exact lt_irrefl _ (hlt hcycle)
  sourceOnce := hdb.sourceOnce
  childOnce := hdb.childOnce
  described := by
    intro row hrow
    refine ⟨expand db row.summaryId, ?_, fun id => hdb.mem_expand,
      hdb.described row hrow⟩
    intro source hsource
    exact (Db.mem_of_findMessage (mem_expandTo hsource).1).1

/-! ## Events that write no summary -/

/-- A change outside the summary tables keeps the invariant when the messages
it brings into context have no leaf. -/
theorem DagInvariant.of_same {db after : Db} (hdb : DagInvariant db)
    (hconsistent : after.Consistent) (hsummaries : after.summaries = db.summaries)
    (hsources : after.summaryMessages = db.summaryMessages)
    (hparents : after.summaryParents = db.summaryParents)
    (hexpand : ∀ id, expand after id = expand db id)
    (hitems : ∀ item ∈ after.contextItems, item ∈ db.contextItems ∨
      ∃ id, item.ref = .message id ∧
        ∀ link ∈ db.summaryMessages, link.messageId ≠ id) :
    DagInvariant after := by
  have hchildIds : ∀ id, childIds after id = childIds db id := by
    intro id
    rw [childIds, childIds, hparents]
  have hfind : ∀ id, after.findSummary id = db.findSummary id := by
    intro id
    rw [Db.findSummary, Db.findSummary, hsummaries]
  constructor
  · exact hconsistent
  · intro row hrow hkind
    rw [hsummaries] at hrow
    rw [hchildIds]
    exact hdb.leaves row hrow hkind
  · intro row hrow hkind
    rw [hsummaries] at hrow
    rw [hchildIds]
    obtain ⟨hne, hdepths⟩ := hdb.condensed row hrow hkind
    refine ⟨hne, fun child hchild => ?_⟩
    rw [hfind]
    exact hdepths child hchild
  · rw [hsources]
    exact hdb.sourceOnce
  · rw [hparents]
    exact hdb.childOnce
  · intro item hitem link hlink
    rw [hsources] at hlink
    rcases hitems item hitem with hold | ⟨id, href, hunlinked⟩
    · exact hdb.liveMessages item hold link hlink
    · rw [href]
      intro heq
      exact hunlinked link hlink (ItemRef.message.inj heq).symm
  · intro item hitem link hlink
    rw [hparents] at hlink
    rcases hitems item hitem with hold | ⟨id, href, _⟩
    · exact hdb.liveSummaries item hold link hlink
    · rw [href]
      exact fun heq => by cases heq
  · intro row hrow
    rw [hsummaries] at hrow
    rw [hexpand]
    exact hdb.described row hrow
  · intro left hleft right hright hleftRoot hrightRoot hne
    rw [hsummaries] at hleft hright
    rw [IsRoot, hparents] at hleftRoot hrightRoot
    rw [hexpand, hexpand]
    exact hdb.disjoint left hleft right hright hleftRoot hrightRoot hne

theorem dagInvariant_push {db : Db} (hdb : DagInvariant db)
    (conversation : ConversationId) (message : Message)
    (largeFile : Option LargeFileRow) (now : String) :
    DagInvariant (pushMessageSync db conversation message largeFile now) := by
  apply hdb.of_same
    (consistent_push conversation message largeFile now hdb.consistent) rfl rfl rfl
  · intro id
    exact expandTo_push conversation message largeFile now hdb.consistent _ id
  · intro item hitem
    rw [contextItems_push] at hitem
    rcases List.mem_append.mp hitem with hold | hnew
    · exact .inl hold
    · refine .inr ⟨nextRowid MessageRow.messageId db.messages, ?_, ?_⟩
      · rw [List.mem_singleton.mp hnew]
        rfl
      · intro link hlink
        obtain ⟨_, row, hrow⟩ := hdb.consistent.sourceLinks link hlink
        obtain ⟨hmem, hid⟩ := Db.mem_of_findMessage hrow
        rw [← hid]
        exact Nat.ne_of_lt (lt_nextRowid MessageRow.messageId hmem)

theorem dagInvariant_clear {db : Db} (hdb : DagInvariant db)
    (conversation : ConversationId) : DagInvariant (clear db conversation) := by
  apply hdb.of_same (consistent_clear conversation hdb.consistent) rfl rfl rfl
  · intro id
    exact expandTo_clear db conversation _ id
  · exact fun item hitem => .inl (List.mem_filter.mp hitem).1

theorem dagInvariant_conversations {db : Db} (hdb : DagInvariant db)
    (conversations : List Conversation) :
    DagInvariant { db with conversations } := by
  apply hdb.of_same (consistent_conversations hdb.consistent conversations)
    rfl rfl rfl
  · intro id
    exact expandTo_conversations db conversations _ id
  · exact fun item hitem => .inl hitem

/-! ## Summary writes -/

section WithSummary

variable {db : Db} {row : SummaryRow} {sources : List MessageId}
  {children : List SummaryId} {low high : ℕ}

theorem isRoot_withSummary {id : SummaryId} :
    IsRoot (db.withSummary row sources children low high) id ↔
      IsRoot db id ∧ id ∉ children := by
  simp only [IsRoot, Db.withSummary, List.mem_append, or_imp, forall_and,
    List.forall_mem_map]
  refine and_congr_right fun _ => ?_
  constructor
  · exact fun hne hmem => hne id hmem rfl
  · rintro hmem child hchild rfl
    exact hmem hchild

/-- What a summary write must satisfy to keep the invariant. -/
structure DagWrite (db : Db) (row : SummaryRow) (sources : List MessageId)
    (children : List SummaryId) (low high : ℕ) : Prop where
  fresh : db.findSummary row.summaryId = none
  consistent : (db.withSummary row sources children low high).Consistent
  leaf : row.kind = .leaf → row.depth = 0 ∧ children = []
  condensed : row.kind = .condensed → children ≠ [] ∧
    ∀ child ∈ children, ∃ found, db.findSummary child = some found ∧
      row.depth = found.depth + 1
  sourcesNodup : sources.Nodup
  childrenNodup : children.Nodup
  /-- What the write links stands in the range it replaces. -/
  sourcesLive : ∀ source ∈ sources, ∃ item ∈
    db.rangeItems row.conversationId low high, item.ref = .message source
  childrenLive : ∀ child ∈ children, ∃ item ∈
    db.rangeItems row.conversationId low high, item.ref = .summary child
  described : Describes row
    (expand (db.withSummary row sources children low high) row.summaryId)
  disjoint : ∀ other ∈ db.summaries, IsRoot db other.summaryId →
    other.summaryId ∉ children →
    ∀ source ∈ expand (db.withSummary row sources children low high)
      row.summaryId,
    ∀ covered ∈ expand db other.summaryId,
      source.messageId ≠ covered.messageId

theorem DagInvariant.withSummary (hdb : DagInvariant db)
    (hwrite : DagWrite db row sources children low high) :
    DagInvariant (db.withSummary row sources children low high) := by
  have hold : ∀ other ∈ db.summaries, other.summaryId ≠ row.summaryId ∧
      expand (db.withSummary row sources children low high) other.summaryId =
        expand db other.summaryId := by
    intro other hother
    have hfound := hdb.consistent.findSummary_eq hother
    refine ⟨?_, expand_withSummary_other hdb.consistent hwrite.fresh hfound⟩
    intro hid
    rw [hid, hwrite.fresh] at hfound
    cases hfound
  have hmem : ∀ {other : SummaryRow}, other ∈
      (db.withSummary row sources children low high).summaries →
      other ∈ db.summaries ∨ other = row := by
    intro other hother
    rcases List.mem_append.mp hother with hin | hnew
    · exact .inl hin
    · exact .inr (List.mem_singleton.mp hnew)
  constructor
  · exact hwrite.consistent
  · intro other hother hkind
    rcases hmem hother with hin | rfl
    · rw [childIds_withSummary_other (hold other hin).1]
      exact hdb.leaves other hin hkind
    · rw [childIds_withSummary hdb.consistent hwrite.fresh]
      exact hwrite.leaf hkind
  · intro other hother hkind
    rcases hmem hother with hin | rfl
    · rw [childIds_withSummary_other (hold other hin).1]
      obtain ⟨hne, hdepths⟩ := hdb.condensed other hin hkind
      refine ⟨hne, fun child hchild => ?_⟩
      obtain ⟨found, hfound, hdepth⟩ := hdepths child hchild
      exact ⟨found, extends_withSummary.summaries hfound, hdepth⟩
    · rw [childIds_withSummary hdb.consistent hwrite.fresh]
      obtain ⟨hne, hdepths⟩ := hwrite.condensed hkind
      refine ⟨hne, fun child hchild => ?_⟩
      obtain ⟨found, hfound, hdepth⟩ := hdepths child hchild
      exact ⟨found, extends_withSummary.summaries hfound, hdepth⟩
  · rw [Db.withSummary, List.map_append, List.map_map, List.nodup_append]
    refine ⟨hdb.sourceOnce, ?_, ?_⟩
    · exact (List.map_id' sources).symm ▸ hwrite.sourcesNodup
    · intro first hfirst second hsecond heq
      obtain ⟨link, hlink, rfl⟩ := List.mem_map.mp hfirst
      obtain ⟨source, hsource, rfl⟩ := List.mem_map.mp hsecond
      obtain ⟨item, hitem, href⟩ := hwrite.sourcesLive source hsource
      exact hdb.liveMessages item (mem_rangeItems hitem) link hlink
        (href.trans (congrArg ItemRef.message heq.symm))
  · rw [Db.withSummary, List.map_append, List.map_map, List.nodup_append]
    refine ⟨hdb.childOnce, ?_, ?_⟩
    · exact (List.map_id' children).symm ▸ hwrite.childrenNodup
    · intro first hfirst second hsecond heq
      obtain ⟨link, hlink, rfl⟩ := List.mem_map.mp hfirst
      obtain ⟨child, hchild, rfl⟩ := List.mem_map.mp hsecond
      obtain ⟨item, hitem, href⟩ := hwrite.childrenLive child hchild
      exact hdb.liveSummaries item (mem_rangeItems hitem) link hlink
        (href.trans (congrArg ItemRef.summary heq.symm))
  · intro item hitem link hlink heq
    rcases List.mem_append.mp hlink with hin | hnew
    · rcases mem_contextItems_withSummary.mp hitem with ⟨hlive, _⟩ | rfl
      · exact hdb.liveMessages item hlive link hin heq
      · cases heq
    · obtain ⟨source, hsource, rfl⟩ := List.mem_map.mp hnew
      obtain ⟨other, hother, href⟩ := hwrite.sourcesLive source hsource
      rcases mem_contextItems_withSummary.mp hitem with ⟨hlive, hout⟩ | rfl
      · rw [hdb.consistent.eq_of_ref hlive (mem_rangeItems hother)
          (heq.trans href.symm)] at hout
        exact hout hother
      · cases heq
  · intro item hitem link hlink heq
    rcases List.mem_append.mp hlink with hin | hnew
    · rcases mem_contextItems_withSummary.mp hitem with ⟨hlive, _⟩ | rfl
      · exact hdb.liveSummaries item hlive link hin heq
      · obtain ⟨⟨found, hfound⟩, _⟩ := hdb.consistent.parentLinks link hin
        rw [← ItemRef.summary.inj heq, hwrite.fresh] at hfound
        cases hfound
    · obtain ⟨child, hchild, rfl⟩ := List.mem_map.mp hnew
      obtain ⟨other, hother, href⟩ := hwrite.childrenLive child hchild
      rcases mem_contextItems_withSummary.mp hitem with ⟨hlive, hout⟩ | rfl
      · rw [hdb.consistent.eq_of_ref hlive (mem_rangeItems hother)
          (heq.trans href.symm)] at hout
        exact hout hother
      · have hresolves := hdb.consistent.items other (mem_rangeItems hother)
        simp only [Db.Resolves, href] at hresolves
        obtain ⟨found, hfound⟩ := hresolves
        have hsame : child = row.summaryId := (ItemRef.summary.inj heq).symm
        rw [hsame, hwrite.fresh] at hfound
        cases hfound
  · intro other hother
    rcases hmem hother with hin | rfl
    · rw [(hold other hin).2]
      exact hdb.described other hin
    · exact hwrite.described
  · intro left hleft right hright hleftRoot hrightRoot hne
    obtain ⟨hleftOld, hleftNew⟩ := isRoot_withSummary.mp hleftRoot
    obtain ⟨hrightOld, hrightNew⟩ := isRoot_withSummary.mp hrightRoot
    rcases hmem hleft with hleftIn | rfl
    · rw [(hold left hleftIn).2]
      rcases hmem hright with hrightIn | rfl
      · rw [(hold right hrightIn).2]
        exact hdb.disjoint left hleftIn right hrightIn hleftOld hrightOld hne
      · intro source hsource covered hcovered heq
        exact hwrite.disjoint left hleftIn hleftOld hleftNew covered hcovered
          source hsource heq.symm
    · rcases hmem hright with hrightIn | rfl
      · rw [(hold right hrightIn).2]
        exact hwrite.disjoint right hrightIn hrightOld hrightNew
      · exact absurd rfl hne

end WithSummary

theorem pairwise_refs {db : Db} (hdb : db.Consistent)
    (conversation : ConversationId) (low high : ℕ) :
    (db.rangeItems conversation low high).Pairwise fun left right =>
      left.ref ≠ right.ref := by
  have hitems : (db.conversationItems conversation).Pairwise fun left right =>
      left.ref ≠ right.ref :=
    (List.pairwise_map.mp hdb.refs).filter _
  have hordered : (db.orderedItems conversation).Pairwise fun left right =>
      left.ref ≠ right.ref :=
    ((orderBy_perm ContextItem.ordinal _).pairwise_iff Ne.symm).mpr hitems
  exact hordered.filter _

theorem LeafPending.nodup {db : Db} (hdb : db.Consistent)
    {conversation : ConversationId} {group : List RawRow}
    (hgroup : LeafPending db conversation group) :
    (group.map (·.row.messageId)).Nodup := by
  rw [List.Nodup, List.pairwise_map, ← hgroup.rows]
  refine List.Pairwise.filterMap _ ?_ (pairwise_refs hdb conversation _ _)
  intro left right hne first hfirst second hsecond heq
  rw [(rawRow_eq_some hfirst).1, (rawRow_eq_some hsecond).1, heq] at hne
  exact hne rfl

theorem LeafPending.live {db : Db} {conversation : ConversationId}
    {group : List RawRow} (hgroup : LeafPending db conversation group) :
    ∀ source ∈ group.map (·.row.messageId), ∃ item ∈
      leafRange db conversation group, item.ref = .message source := by
  intro source hsource
  obtain ⟨raw, hraw, rfl⟩ := List.mem_map.mp hsource
  rw [← hgroup.rows] at hraw
  obtain ⟨item, hitem, hrow⟩ := List.mem_filterMap.mp hraw
  exact ⟨item, hitem, (rawRow_eq_some hrow).1⟩

/-- The metadata of a leaf is that of its group. -/
theorem SummarizesGroup.describes {conversation : ConversationId}
    {group : List RawRow} {row : SummaryRow}
    (hrow : SummarizesGroup conversation group row) (hne : group ≠ [])
    (hnodup : (group.map (·.row.messageId)).Nodup) :
    Describes row (group.map RawRow.row) := by
  have htimes : group.map (·.row.createdAt) ≠ [] := by simpa using hne
  constructor
  · rw [List.map_map]
    exact hnodup
  · rw [List.length_map]
    exact hrow.descendantCount
  · rw [List.map_map]
    exact hrow.descendantTokenCount
  · rw [List.map_map]
    exact hrow.sourceMessageTokenCount
  · rw [List.map_map, hrow.earliestAt]
    exact earliest_isLeast htimes
  · rw [List.map_map, hrow.latestAt]
    exact latest_isGreatest htimes

theorem dagInvariant_leafWrite {db : Db} (hdb : DagInvariant db)
    {conversation : ConversationId} {group : List RawRow}
    (hgroup : LeafPending db conversation group) {row : SummaryRow}
    (hrow : SummarizesGroup conversation group row)
    (hfresh : db.findSummary row.summaryId = none) :
    DagInvariant (db.withSummary row (group.map (·.row.messageId)) []
      (firstKey RawRow.ordinal group) (lastKey RawRow.ordinal group)) := by
  have hexpand := expand_leafWrite hdb.consistent hgroup hrow hfresh
  apply hdb.withSummary
  constructor
  · exact hfresh
  · exact consistent_leafWrite hdb.consistent hgroup hfresh
  · exact fun _ => ⟨hrow.depth, rfl⟩
  · intro hkind
    rw [hrow.kind] at hkind
    cases hkind
  · exact hgroup.nodup hdb.consistent
  · exact List.nodup_nil
  · rw [hrow.conversationId]
    exact hgroup.live
  · simp
  · rw [hexpand]
    exact hrow.describes hgroup.nonempty (hgroup.nodup hdb.consistent)
  · intro other _ _ _ source hsource covered hcovered heq
    rw [hexpand] at hsource
    obtain ⟨raw, hraw, rfl⟩ := List.mem_map.mp hsource
    obtain ⟨item, hitem, href⟩ := hgroup.live raw.row.messageId
      (List.mem_map.mpr ⟨raw, hraw, rfl⟩)
    obtain ⟨_, ⟨link, hlink, hid⟩, _⟩ := mem_expandTo hcovered
    refine hdb.liveMessages item (mem_rangeItems hitem) link hlink ?_
    rw [href, heq, hid]

theorem CondensedPending.nodup {db : Db} (hdb : db.Consistent)
    {conversation : ConversationId} {chunk : CondensedChunk}
    (hchunk : CondensedPending db conversation chunk) :
    (chunk.rows.map CondensedRow.summaryId).Nodup := by
  have hrefs := pairwise_refs hdb conversation
    (firstKey CondensedRow.ordinal chunk.rows)
    (lastKey CondensedRow.ordinal chunk.rows)
  have hids := condensed_ids hchunk.rows
  have hnodup : ((chunk.rows.map CondensedRow.summaryId).map
      ItemRef.summary).Nodup := by
    rw [List.map_map]
    change (chunk.rows.map fun row => ItemRef.summary row.summaryId).Nodup
    rw [← hids, List.Nodup, List.pairwise_map]
    exact hrefs
  exact hnodup.of_map

/-- The metadata of a condensed summary is that of the messages under its
children. -/
theorem SummarizesChunk.describes {db : Db} (hdb : DagInvariant db)
    {conversation : ConversationId} {chunk : CondensedChunk} {row : SummaryRow}
    (hrow : SummarizesChunk conversation chunk row)
    (hchunk : CondensedPending db conversation chunk) :
    Describes row
      ((chunk.rows.map CondensedRow.summaryId).flatMap (expand db)) := by
  have hlive : ∀ part ∈ chunk.rows, ∃ summary ∈ db.summaries,
      summary.summaryId = part.summaryId ∧ IsRoot db part.summaryId ∧
        part.descendantCount = summary.descendantCount ∧
        part.descendantTokenCount = summary.descendantTokenCount ∧
        part.sourceMessageTokenCount = summary.sourceMessageTokenCount ∧
        part.earliestAt = summary.earliestAt ∧
        part.latestAt = summary.latestAt := by
    intro part hpart
    obtain ⟨item, hitem, summary, hfind, href, rfl⟩ :=
      hchunk.children part hpart
    obtain ⟨hmem, hid⟩ := Db.mem_of_findSummary hfind
    refine ⟨summary, hmem, hid, ?_, rfl, rfl, rfl, rfl, rfl⟩
    intro link hlink heq
    apply hdb.liveSummaries item (mem_rangeItems hitem) link hlink
    rw [href, heq]
  have hdescribed : ∀ part ∈ chunk.rows, ∃ summary : SummaryRow,
      Describes summary (expand db part.summaryId) ∧
        part.descendantCount = summary.descendantCount ∧
        part.descendantTokenCount = summary.descendantTokenCount ∧
        part.sourceMessageTokenCount = summary.sourceMessageTokenCount ∧
        part.earliestAt = summary.earliestAt ∧
        part.latestAt = summary.latestAt := by
    intro part hpart
    obtain ⟨summary, hmem, hid, _, hvalues⟩ := hlive part hpart
    refine ⟨summary, ?_, hvalues⟩
    rw [← hid]
    exact hdb.described summary hmem
  have htimes : ∀ time : CondensedRow → String, chunk.rows.map time ≠ [] :=
    fun _ => by simpa using hchunk.nonempty
  rw [List.flatMap_map]
  constructor
  · apply nodup_map_flatMap
    · intro part hpart
      obtain ⟨_, hdesc, _⟩ := hdescribed part hpart
      exact hdesc.distinct
    · have hdistinct := List.pairwise_map.mp (hchunk.nodup hdb.consistent)
      refine hdistinct.imp_of_mem ?_
      intro left right hleft hright hne
      obtain ⟨leftRow, hleftMem, hleftId, hleftRoot, _⟩ := hlive left hleft
      obtain ⟨rightRow, hrightMem, hrightId, hrightRoot, _⟩ :=
        hlive right hright
      rw [← hleftId] at hleftRoot hne ⊢
      rw [← hrightId] at hrightRoot hne ⊢
      exact hdb.disjoint leftRow hleftMem rightRow hrightMem hleftRoot
        hrightRoot hne
  · rw [hrow.descendantCount, List.length_flatMap]
    congr 1
    apply List.map_congr_left
    intro part hpart
    obtain ⟨_, hdesc, hcount, _⟩ := hdescribed part hpart
    rw [hcount, hdesc.descendantCount]
  · rw [hrow.descendantTokenCount]
    apply sum_map_flatMap
    intro part hpart
    obtain ⟨_, hdesc, _, htokens, _⟩ := hdescribed part hpart
    rw [htokens, hdesc.descendantTokenCount]
  · rw [hrow.sourceMessageTokenCount]
    apply sum_map_flatMap
    intro part hpart
    obtain ⟨_, hdesc, _, _, htokens, _⟩ := hdescribed part hpart
    rw [htokens, hdesc.sourceMessageTokenCount]
  · rw [hrow.earliestAt]
    refine isLeast_flatMap ?_ (earliest_isLeast (htimes _))
    intro part hpart
    obtain ⟨_, hdesc, _, _, _, hearliest, _⟩ := hdescribed part hpart
    rw [hearliest]
    exact hdesc.earliestAt
  · rw [hrow.latestAt]
    refine isGreatest_flatMap ?_ (latest_isGreatest (htimes _))
    intro part hpart
    obtain ⟨_, hdesc, _, _, _, _, hlatest⟩ := hdescribed part hpart
    rw [hlatest]
    exact hdesc.latestAt

theorem CondensedPending.live {db : Db} {conversation : ConversationId}
    {chunk : CondensedChunk} (hchunk : CondensedPending db conversation chunk) :
    ∀ child ∈ chunk.rows.map CondensedRow.summaryId, ∃ item ∈
      condensedRange db conversation chunk, item.ref = .summary child := by
  intro child hchild
  obtain ⟨row, hrow, rfl⟩ := List.mem_map.mp hchild
  obtain ⟨item, hitem, _, _, href, _⟩ := hchunk.children row hrow
  exact ⟨item, hitem, href⟩

theorem dagInvariant_condensedWrite {db : Db} (hdb : DagInvariant db)
    {conversation : ConversationId} {chunk : CondensedChunk}
    (hchunk : CondensedPending db conversation chunk) {row : SummaryRow}
    (hrow : SummarizesChunk conversation chunk row)
    (hfresh : db.findSummary row.summaryId = none) :
    DagInvariant (db.withSummary row [] (chunk.rows.map CondensedRow.summaryId)
      (firstKey CondensedRow.ordinal chunk.rows)
      (lastKey CondensedRow.ordinal chunk.rows)) := by
  have hexpand := expand_condensedWrite hdb.consistent hchunk hrow hfresh
  apply hdb.withSummary
  constructor
  · exact hfresh
  · exact consistent_condensedWrite hdb.consistent hchunk hfresh
  · intro hkind
    rw [hrow.kind] at hkind
    cases hkind
  · intro _
    refine ⟨by simpa using hchunk.nonempty, fun child hchild => ?_⟩
    obtain ⟨found, hfound, hdepth⟩ := hchunk.childDepths child hchild
    exact ⟨found, hfound, by rw [hdepth, hrow.depth]⟩
  · exact List.nodup_nil
  · exact hchunk.nodup hdb.consistent
  · simp
  · rw [hrow.conversationId]
    exact hchunk.live
  · rw [hexpand]
    exact hrow.describes hdb hchunk
  · intro other hother hroot hnotChild source hsource covered hcovered
    rw [hexpand] at hsource
    obtain ⟨child, hchild, hmem⟩ := List.mem_flatMap.mp hsource
    obtain ⟨found, hfound, _⟩ := hchunk.childDepths child hchild
    obtain ⟨hfoundMem, rfl⟩ := Db.mem_of_findSummary hfound
    obtain ⟨item, hitem, href⟩ := hchunk.live _ hchild
    refine hdb.disjoint found hfoundMem other hother ?_ hroot ?_ source hmem
      covered hcovered
    · intro link hlink heq
      apply hdb.liveSummaries item (mem_rangeItems hitem) link hlink
      rw [href, heq]
    · intro heq
      rw [heq] at hchild
      exact hnotChild hchild

/-! ## Every reachable store -/

theorem dagInvariant_step (sha256 : List UInt8 → List UInt8) (db : Db)
    (event : Event) (hdb : DagInvariant db) :
    DagInvariant (step sha256 db event) := by
  cases event with
  | push conversation message largeFile now =>
      exact dagInvariant_push hdb conversation message largeFile now
  | clear conversation => exact dagInvariant_clear hdb conversation
  | openSession name now =>
      exact openSession_preserves (P := DagInvariant)
        (fun db conversations hdb => dagInvariant_conversations hdb conversations)
        (fun db conversation callId now hdb =>
          dagInvariant_push hdb conversation _ none now) hdb name now
  | compact conversation cfg outcomes =>
      exact runCompaction_preserves (P := DagInvariant) (Q := fun _ => True)
        sha256 cfg (fun db hdb => hdb.consistent)
        (fun db group row hdb hgroup _ hrow hfresh =>
          dagInvariant_leafWrite hdb hgroup hrow hfresh)
        (fun db chunk row hdb hchunk hrow hfresh =>
          dagInvariant_condensedWrite hdb hchunk hrow hfresh)
        outcomes hdb (fun _ _ => trivial)

/-- In every reachable store the summaries form a DAG whose levels, links,
counts and times are those of the messages it covers. -/
theorem summaryDag_history (sha256 : List UInt8 → List UInt8)
    (events : List Event) : SummaryDag (history sha256 events) := by
  have hdb : DagInvariant (history sha256 events) :=
    Run.invariant_run (dagInvariant_step sha256) dagInvariant_empty events
  exact hdb.summaryDag

end Kitaebot.Lcm
