import Kitaebot.Core.Traversal
import Kitaebot.Lcm.FileReferences

/-!
# Recall

`lcm_expand` walks the summaries below a root from a stack, writes each of them,
and below the leaves the source messages with the payloads they mention, until
a token cap.  A run that stays below the cap writes the whole subtree, each
summary and each message once.
-/

namespace Kitaebot.Lcm.Recall

open OrderedTable

/-- `u32::try_from(value).unwrap_or(u32::MAX)`. -/
def u32OrMax (value : ℕ) : UInt32 :=
  if value < UInt32.size then UInt32.ofNat value else UInt32.ofNat (UInt32.size - 1)

def roleText : Role → String
  | .user => "user"
  | .assistant => "assistant"
  | .tool => "tool"
  | .system => "system"

/-- The text written so far and the tokens it took. -/
structure Output where
  text : String
  tokensUsed : UInt32
  deriving DecidableEq, Repr

/-- How an expansion ends before its stack is empty: at the token cap, with the
text so far, or on a row that is missing. -/
inductive Stop where
  | truncated (text : String)
  | failed (text : String)
  deriving DecidableEq, Repr

def nodeText (row : SummaryRow) (level : ℕ) : String :=
  "## " ++ row.summaryId ++ " (kind=" ++ row.kind.text ++ ", depth=" ++
    toString row.depth ++ ", level=" ++ toString level ++ ")\n" ++ row.content ++
    "\n\n"

def blockText (row : MessageRow) : String :=
  "### message_id=" ++ toString row.messageId ++ " role=" ++ roleText row.role ++
    "\n" ++ row.content ++ "\n\n"

def unavailableText (id : FileId) : String :=
  "### " ++ id ++ ": payload unavailable (No such file or directory (os error 2))\n\n"

def payloadText (id : FileId) (payload : String) : String :=
  "### " ++ id ++ " (externalized payload)\n" ++ payload ++ "\n\n"

def truncationText (cap : ℕ) : String :=
  "[truncated at token_cap=" ++ toString cap ++ "]\n"

section Expand

variable (isWord : Char → Bool) (payloads : FileId → Option String) (db : Db)
  (cap : ℕ)

/-- Append a payload, or as much of it as fits below the cap. -/
def appendPayload (output : Output) (id : FileId) : Except Stop Output :=
  match payloads id with
  | none => .ok { output with text := output.text ++ unavailableText id }
  | some payload =>
      let remainingChars := (cap - output.tokensUsed.toNat) * 4
      if payload.utf8ByteSize ≤ remainingChars then
        .ok ⟨output.text ++ payloadText id payload,
          output.tokensUsed + u32OrMax (estimateTokens payload)⟩
      else
        let kept := String.ofList (Text.leadingSymbols remainingChars payload.toList)
        .error (.truncated (output.text ++ "### " ++ id ++
          " (externalized payload, first " ++ toString kept.utf8ByteSize ++ " of " ++
          toString payload.utf8ByteSize ++ " bytes)\n" ++ kept ++ "\n" ++
          truncationText cap))

/-- Append a source message and the payloads it mentions. -/
def appendMessage (output : Output) (row : MessageRow) : Except Stop Output :=
  let block := blockText row
  if cap < output.tokensUsed.toNat + estimateTokens block then
    .error (.truncated (output.text ++ truncationText cap))
  else
    (extractFileIds isWord row.content).foldlM (appendPayload payloads cap)
      ⟨output.text ++ block,
        output.tokensUsed + u32OrMax (estimateTokens row.content)⟩

/-- The sources of a leaf in the order of the conversation. -/
def leafMessages (id : SummaryId) : List MessageRow :=
  orderBy MessageRow.seq (sourceRows db id)

/-- The children of a summary, ordered by id. -/
def sortedChildren (id : SummaryId) : List SummaryId :=
  (childIds db id).insertionSort fun left right => ¬ right < left

/-- The loop over the stack, its last entry first; `none` when the fuel does not
last. -/
def expandLoop (depth : ℕ) (includeMessages : Bool) :
    ℕ → List (SummaryId × ℕ) → List SummaryId → Output →
      Option (Except Stop String)
  | _, [], _, output => some (.ok output.text)
  | 0, _ :: _, _, _ => none
  | fuel + 1, (id, level) :: frontier, seen, output =>
      match db.findSummary id with
      | none => some (.error (.failed "Query returned no rows"))
      | some row =>
          let chunk := nodeText row level
          if cap < output.tokensUsed.toNat + estimateTokens chunk then
            some (.error (.truncated (output.text ++ "[truncated at token_cap=" ++
              toString cap ++ "; remaining frontier: " ++
              toString (frontier.length + 1) ++ " node(s)]\n")))
          else
            let output : Output := ⟨output.text ++ chunk,
              output.tokensUsed + u32OrMax row.tokenCount⟩
            if depth ≤ level then
              expandLoop depth includeMessages fuel frontier seen output
            else
              match row.kind with
              | .leaf =>
                  if includeMessages then
                    match (leafMessages db id).foldlM
                        (appendMessage isWord payloads cap) output with
                    | .error stop => some (.error stop)
                    | .ok output =>
                        expandLoop depth includeMessages fuel frontier seen output
                  else expandLoop depth includeMessages fuel frontier seen output
              | .condensed =>
                  let next := Traversal.discover (level + 1) (sortedChildren db id)
                    frontier seen
                  expandLoop depth includeMessages fuel next.1 next.2 output

/-- Expand a summary of the active conversation.  Each parent link puts at most
one summary on the stack. -/
def expand (conversation : ConversationId) (id : SummaryId) (depth : ℕ)
    (includeMessages : Bool) : Option (Except Stop String) :=
  if db.summaries.any fun row =>
      row.summaryId == id && row.conversationId == conversation then
    expandLoop isWord payloads db cap depth includeMessages
      (db.summaryParents.length + 1) [(id, 0)] [id] ⟨"", 0⟩
  else some (.ok ("No summary with id " ++ reprStr id ++ " in the active session."))

end Expand

/-! ## What an expansion writes -/

/-- The text of a mentioned file. -/
def mentionText (payloads : FileId → Option String) (id : FileId) : String :=
  match payloads id with
  | none => unavailableText id
  | some payload => payloadText id payload

/-- A source message, then the files it mentions. -/
def messageText (isWord : Char → Bool) (payloads : FileId → Option String)
    (row : MessageRow) : String :=
  blockText row ++ String.join
    ((extractFileIds isWord row.content).map (mentionText payloads))

/-- A summary, then its source messages. -/
def visitText (isWord : Char → Bool) (payloads : FileId → Option String)
    (db : Db) (entry : SummaryId × ℕ) : String :=
  match db.findSummary entry.1 with
  | none => ""
  | some row => nodeText row entry.2 ++ String.join
      ((leafMessages db entry.1).map (messageText isWord payloads))

/-- The step adds a text or reaches the cap. -/
def Appends (result : Except Stop Output) (before text : String) : Prop :=
  (∃ output, result = .ok output ∧ output.text = before ++ text) ∨
    ∃ cut, result = .error (.truncated cut)

theorem appends_foldlM {Value : Type*}
    {append : Output → Value → Except Stop Output} {text : Value → String}
    (happend : ∀ output value,
      Appends (append output value) output.text (text value))
    (values : List Value) (output : Output) :
    Appends (values.foldlM append output) output.text
      (String.join (values.map text)) := by
  induction values generalizing output with
  | nil =>
      refine .inl ⟨output, rfl, ?_⟩
      rw [List.map_nil, String.join_nil, String.append_empty]
  | cons value values ih =>
      rw [List.foldlM_cons]
      rcases happend output value with ⟨next, hnext, htext⟩ | ⟨cut, hcut⟩
      · rw [hnext]
        rcases ih next with ⟨last, hlast, hlastText⟩ | ⟨cut, hcut⟩
        · refine .inl ⟨last, hlast, ?_⟩
          rw [hlastText, htext, List.map_cons, String.join_cons,
            String.append_assoc]
        · exact .inr ⟨cut, hcut⟩
      · rw [hcut]
        exact .inr ⟨cut, rfl⟩

section Loop

variable (isWord : Char → Bool) (payloads : FileId → Option String) (db : Db)
  (cap : ℕ)

theorem appends_payload (output : Output) (id : FileId) :
    Appends (appendPayload payloads cap output id) output.text
      (mentionText payloads id) := by
  rw [appendPayload, mentionText]
  cases payloads id with
  | none => exact .inl ⟨_, rfl, rfl⟩
  | some payload =>
      simp only
      split
      · exact .inl ⟨_, rfl, rfl⟩
      · exact .inr ⟨_, rfl⟩

theorem appends_message (output : Output) (row : MessageRow) :
    Appends (appendMessage isWord payloads cap output row) output.text
      (messageText isWord payloads row) := by
  rw [appendMessage, messageText]
  split
  · exact .inr ⟨_, rfl⟩
  · have hrest := appends_foldlM (appends_payload payloads cap)
      (extractFileIds isWord row.content) ⟨output.text ++ blockText row,
        output.tokensUsed + u32OrMax (estimateTokens row.content)⟩
    rwa [Appends, String.append_assoc] at hrest

/-- Only leaves have sources. -/
def LeafSources (db : Db) : Prop :=
  ∀ link ∈ db.summaryMessages, ∀ row ∈ db.summaries,
    row.summaryId = link.summaryId → row.kind = .leaf

theorem leafMessages_condensed {db : Db} (hsources : LeafSources db)
    {id : SummaryId} {row : SummaryRow} (hrow : db.findSummary id = some row)
    (hkind : row.kind = .condensed) : leafMessages db id = [] := by
  obtain ⟨hmem, hid⟩ := Db.mem_of_findSummary hrow
  have hnone : db.summaryMessages.filter (·.summaryId == id) = [] := by
    rw [List.filter_eq_nil_iff]
    intro link hlink heq
    have hleaf := hsources link hlink row hmem (hid.trans (eq_of_beq heq).symm)
    rw [hkind] at hleaf
    cases hleaf
  rw [leafMessages, sourceRows, hnone]
  rfl

theorem sortedChildren_leaf {db : Db} (hdb : DagInvariant db) {id : SummaryId}
    {row : SummaryRow} (hrow : db.findSummary id = some row)
    (hkind : row.kind = .leaf) : sortedChildren db id = [] := by
  obtain ⟨hmem, hid⟩ := Db.mem_of_findSummary hrow
  rw [sortedChildren, ← hid, (hdb.leaves row hmem hkind).2]
  rfl

/-- Below its depth, the loop visits what the walk visits and writes it, unless
it reaches the cap. -/
theorem expandLoop_walk {db : Db} (hdb : DagInvariant db)
    (hsources : LeafSources db) {depth fuel : ℕ}
    {stack visits : List (SummaryId × ℕ)} {seen : List SummaryId}
    (hstack : ∀ entry ∈ stack, ∃ row, db.findSummary entry.1 = some row ∧
      entry.2 + row.depth < depth)
    (hwalk : Traversal.walk (sortedChildren db) fuel stack seen = some visits)
    (output : Output) :
    expandLoop isWord payloads db cap depth true fuel stack seen output =
        some (.ok (output.text ++
          String.join (visits.map (visitText isWord payloads db)))) ∨
      ∃ cut, expandLoop isWord payloads db cap depth true fuel stack seen output =
        some (.error (.truncated cut)) := by
  induction fuel generalizing stack seen visits output with
  | zero =>
      cases stack with
      | nil =>
          cases hwalk
          left
          rw [expandLoop, List.map_nil, String.join_nil, String.append_empty]
      | cons entry stack => cases hwalk
  | succ fuel ih =>
      cases stack with
      | nil =>
          cases hwalk
          left
          rw [expandLoop, List.map_nil, String.join_nil, String.append_empty]
      | cons entry stack =>
          obtain ⟨id, level⟩ := entry
          rw [List.forall_mem_cons] at hstack
          obtain ⟨⟨row, hrow, hdepth⟩, hrest⟩ := hstack
          rw [Traversal.walk] at hwalk
          obtain ⟨rest, hwalkRest, rfl⟩ := Option.map_eq_some_iff.1 hwalk
          rw [List.map_cons, String.join_cons, expandLoop, hrow]
          simp only
          split
          · exact .inr ⟨_, rfl⟩
          · rw [if_neg (by simp only at hdepth; omega)]
            have hvisit : visitText isWord payloads db (id, level) =
                nodeText row level ++ String.join ((leafMessages db id).map
                  (messageText isWord payloads)) := by
              simp only [visitText, hrow]
            cases hkind : row.kind with
            | leaf =>
                rw [sortedChildren_leaf hdb hrow hkind] at hwalkRest
                have happends := appends_foldlM
                  (appends_message isWord payloads cap) (leafMessages db id)
                  ⟨output.text ++ nodeText row level,
                    output.tokensUsed + u32OrMax row.tokenCount⟩
                rcases happends with ⟨next, hnext, htext⟩ | ⟨cut, hcut⟩
                · simp only [hnext, if_true]
                  have htail := ih hrest hwalkRest next
                  simp only [htext, hvisit, String.append_assoc] at htail ⊢
                  exact htail
                · simp only [hcut, if_true]
                  exact .inr ⟨cut, rfl⟩
            | condensed =>
                rw [leafMessages_condensed hsources hrow hkind, List.map_nil,
                  String.join_nil, String.append_empty] at hvisit
                have hnext : ∀ entry ∈ (Traversal.discover (level + 1)
                    (sortedChildren db id) stack seen).1,
                    ∃ row, db.findSummary entry.1 = some row ∧
                      entry.2 + row.depth < depth := by
                  intro entry hentry
                  obtain ⟨⟨fresh, hfresh, _, hfound, _⟩, _⟩ :=
                    Traversal.discovered (level + 1) (sortedChildren db id) stack
                      seen
                  rw [hfresh] at hentry
                  rcases List.mem_append.1 hentry with hnew | hold
                  · obtain ⟨child, hchild, rfl⟩ := List.mem_map.1 hnew
                    have hmem := (hfound child hchild).1
                    rw [sortedChildren, List.mem_insertionSort] at hmem
                    obtain ⟨hrowMem, hid⟩ := Db.mem_of_findSummary hrow
                    obtain ⟨found, hfind, hfoundDepth⟩ :=
                      (hdb.condensed row hrowMem hkind).2 child (by rwa [hid])
                    refine ⟨found, hfind, ?_⟩
                    simp only at hdepth ⊢
                    omega
                  · exact hrest entry hold
                have htail := ih hnext hwalkRest
                  ⟨output.text ++ nodeText row level,
                    output.tokensUsed + u32OrMax row.tokenCount⟩
                simp only [hvisit, String.append_assoc] at htail ⊢
                exact htail

end Loop

/-! ## Every store -/

theorem leafSources_withSummary {db : Db} (hdb : db.Consistent)
    (hsources : LeafSources db) {row : SummaryRow} {sources : List MessageId}
    {children : List SummaryId} {low high : ℕ}
    (hfresh : db.findSummary row.summaryId = none)
    (hkind : sources = [] ∨ row.kind = .leaf) :
    LeafSources (db.withSummary row sources children low high) := by
  intro link hlink other hother hid
  rw [Db.withSummary, List.mem_append] at hlink hother
  rcases hother with hold | hnew
  · rcases hlink with hlink | hlink
    · exact hsources link hlink other hold hid
    · obtain ⟨_, _, rfl⟩ := List.mem_map.1 hlink
      have hfound := hdb.findSummary_eq hold
      rw [hid, hfresh] at hfound
      cases hfound
  · rw [List.mem_singleton.1 hnew] at hid ⊢
    rcases hlink with hlink | hlink
    · obtain ⟨⟨found, hfound⟩, _⟩ := hdb.sourceLinks link hlink
      rw [← hid, hfresh] at hfound
      cases hfound
    · rcases hkind with rfl | hleaf
      · cases hlink
      · exact hleaf

theorem leafSources_step (sha256 : List UInt8 → List UInt8) (db : Db)
    (event : Event) (hdb : db.Consistent ∧ LeafSources db) :
    (step sha256 db event).Consistent ∧ LeafSources (step sha256 db event) := by
  refine ⟨consistent_step sha256 db event hdb.1, ?_⟩
  cases event with
  | push conversation message largeFile now => exact hdb.2
  | compact conversation cfg outcomes =>
      refine (runCompaction_preserves
        (P := fun db => db.Consistent ∧ LeafSources db) (Q := fun _ => True)
        sha256 cfg (fun _ hafter => hafter.1) ?_ ?_ outcomes hdb
        (fun _ _ => trivial)).2
      · intro after group row hafter hgroup _ hrow hfresh
        exact ⟨consistent_leafWrite hafter.1 hgroup hfresh,
          leafSources_withSummary hafter.1 hafter.2 hfresh (.inr hrow.kind)⟩
      · intro after chunk row hafter hchunk _ hfresh
        exact ⟨consistent_condensedWrite hafter.1 hchunk hfresh,
          leafSources_withSummary hafter.1 hafter.2 hfresh (.inl rfl)⟩
  | clear conversation => exact hdb.2
  | openSession name now =>
      exact openSession_preserves (P := LeafSources) (fun _ _ hafter => hafter)
        (fun _ _ _ _ hafter => hafter) hdb.2 name now

section Worlds

variable (sha256 : List UInt8 → List UInt8) (jsonPath : String → Option String)
  (text : PayloadText) (cfg : IngestConfig)

/-- The world after a run of events. -/
def worldHistory (events : List StoreEvent) : World :=
  Run.run (worldStep sha256 jsonPath text cfg) World.empty events

theorem store_worldHistory (events : List StoreEvent) :
    (worldHistory sha256 jsonPath text cfg events).store =
      storeHistory sha256 jsonPath text cfg events := by
  have hrun : ∀ world : World,
      (Run.run (worldStep sha256 jsonPath text cfg) world events).store =
        Run.run (storeStep sha256 jsonPath text cfg) world.store events := by
    induction events with
    | nil => exact fun world => rfl
    | cons event events ih => exact fun world => ih _
  exact hrun World.empty

/-- The payload of a written reference is stored, and its message mentions
it. -/
def Recorded (isWord : Char → Bool) (world : World) : Prop :=
  ∀ reference ∈ world.written,
    (world.store.payloads reference.fileId).isSome = true ∧
      ∃ row ∈ world.store.db.messages, row.messageId = reference.messageId ∧
        reference.fileId ∈ extractFileIds isWord row.content

/-- Stores only grow. -/
structure Grows (before after : Store) : Prop where
  messages : before.db.messages <+: after.db.messages
  payloads : ∀ id, (before.payloads id).isSome = true →
    (after.payloads id).isSome = true

theorem isSome_writePayload {store : Store} {id : FileId} {stored : String}
    {other : FileId} (hother : (store.payloads other).isSome = true) :
    ((store.writePayload id stored).payloads other).isSome = true := by
  simp only [Store.writePayload]
  by_cases hid : other = id
  · rw [hid, Function.update_self]
    rfl
  · rwa [Function.update_of_ne hid]

theorem grows_step {store : Store} (hstore : store.db.Consistent)
    (event : StoreEvent) :
    Grows store (storeStep sha256 jsonPath text cfg store event) := by
  cases event with
  | push conversation message explored now =>
      constructor
      · rw [storeStep, db_pushMessage]
        exact List.prefix_append _ _
      · intro id hid
        simp only [storeStep, pushMessage]
        cases oversized jsonPath cfg store.db conversation message with
        | none => exact hid
        | some payload => exact isSome_writePayload hid
  | failedPush content =>
      exact ⟨List.prefix_refl _, fun id hid => isSome_writePayload hid⟩
  | compact conversation cfg outcomes =>
      exact ⟨(keepsFiles_compact sha256 hstore conversation cfg outcomes).messages,
        fun _ hid => hid⟩
  | clear conversation => exact ⟨List.prefix_refl _, fun _ hid => hid⟩
  | openSession name now =>
      exact ⟨(keepsFiles_openSession sha256 hstore name now).messages,
        fun _ hid => hid⟩

theorem recorded_step {isWord : Char → Bool} (hwords : AsciiWords isWord)
    (world : World) (event : StoreEvent)
    (hworld : world.store.db.Consistent ∧ Recorded isWord world) :
    (worldStep sha256 jsonPath text cfg world event).store.db.Consistent ∧
      Recorded isWord (worldStep sha256 jsonPath text cfg world event) := by
  have hgrows := grows_step sha256 jsonPath text cfg hworld.1 event
  constructor
  · change (storeStep sha256 jsonPath text cfg world.store event).db.Consistent
    rw [db_storeStep]
    cases databaseEvent sha256 jsonPath text cfg world.store event with
    | none => exact hworld.1
    | some lowered => exact consistent_step sha256 _ _ hworld.1
  · intro reference hreference
    rcases List.mem_append.1 hreference with hold | hnew
    · obtain ⟨hstored, row, hrow, hid, hmentions⟩ := hworld.2 reference hold
      exact ⟨hgrows.payloads _ hstored, row, hgrows.messages.subset hrow, hid,
        hmentions⟩
    · cases event with
      | push conversation message explored now =>
          cases hoversized : oversized jsonPath cfg world.store.db conversation
              message with
          | none =>
              simp only [writes, interceptLarge, hoversized] at hnew
              cases hnew
          | some payload =>
              have hpush : PushesPayload sha256 text world conversation payload.1
                  payload.2 (worldStep sha256 jsonPath text cfg world
                    (.push conversation message explored now)) :=
                worldStep_oversized sha256 jsonPath text cfg hoversized
              obtain ⟨⟨stored, row, now', _, _, ⟨_, _, _, hcontent⟩, hstore⟩,
                hwritten⟩ := hpush
              rw [List.append_cancel_left hwritten, List.mem_singleton] at hnew
              rw [hnew, hstore]
              refine ⟨?_, pushedRow world.store.db conversation stored now', ?_,
                rfl, ?_⟩
              · simp only [Store.writePayload, Function.update_self]
                rfl
              · exact List.mem_append_right _ (List.mem_singleton_self _)
              · change _ ∈ extractFileIds isWord (Message.content stored)
                rw [hcontent]
                exact fileId_mem_reference hwords sha256 _ _ _ _ _
      | failedPush content => cases hnew
      | compact conversation cfg outcomes => cases hnew
      | clear conversation => cases hnew
      | openSession name now => cases hnew

theorem recorded_worldHistory {isWord : Char → Bool}
    (hwords : AsciiWords isWord) (events : List StoreEvent) :
    Recorded isWord (worldHistory sha256 jsonPath text cfg events) := by
  have hempty : World.empty.store.db.Consistent ∧ Recorded isWord World.empty :=
    ⟨Db.consistent_empty, fun _ hreference => absurd hreference (by simp [World.empty])⟩
  exact (Run.invariant_run (recorded_step sha256 jsonPath text cfg hwords) hempty
    events).2

end Worlds

/-! ## The subtree of a summary -/

/-- The messages below the visited summaries, in the order of the visits. -/
def visitedMessages (db : Db) (visits : List (SummaryId × ℕ)) : List MessageRow :=
  visits.flatMap fun entry => leafMessages db entry.1

/-- The visits are the subtree of the root: every summary below it once, and
every message below it once. -/
structure Subtree (db : Db) (root : SummaryId) (visits : List (SummaryId × ℕ)) :
    Prop where
  summariesOnce : (Traversal.nodes visits).Nodup
  summaries : ∀ id, id ∈ Traversal.nodes visits ↔
    Relation.ReflTransGen (IsChild db) root id
  messagesOnce : ((visitedMessages db visits).map MessageRow.messageId).Nodup
  messages : ∀ messageId, Reaches db root messageId ↔
    ∃ row ∈ visitedMessages db visits, row.messageId = messageId

theorem mem_sortedChildren {db : Db} {parent child : SummaryId} :
    child ∈ sortedChildren db parent ↔ IsChild db parent child := by
  rw [sortedChildren, List.mem_insertionSort, mem_childIds]

/-- A message below a leaf is linked to it. -/
theorem mem_leafMessages {db : Db} {id : SummaryId} {row : MessageRow}
    (hrow : row ∈ leafMessages db id) :
    (⟨id, row.messageId⟩ : SummaryMessage) ∈ db.summaryMessages := by
  rw [leafMessages, mem_orderBy] at hrow
  obtain ⟨link, hlink, hfind⟩ := List.mem_filterMap.1 hrow
  obtain ⟨hmem, hid⟩ := List.mem_filter.1 hlink
  rw [(Db.mem_of_findMessage hfind).2, ← eq_of_beq hid]
  exact hmem

theorem exists_leafMessage {db : Db} (hdb : db.Consistent) {id : SummaryId}
    {messageId : MessageId}
    (hlink : (⟨id, messageId⟩ : SummaryMessage) ∈ db.summaryMessages) :
    ∃ row ∈ leafMessages db id, row.messageId = messageId := by
  obtain ⟨_, row, hrow⟩ := hdb.sourceLinks _ hlink
  refine ⟨row, ?_, (Db.mem_of_findMessage hrow).2⟩
  rw [leafMessages, mem_orderBy]
  exact List.mem_filterMap.2
    ⟨_, List.mem_filter.2 ⟨hlink, beq_self_eq_true id⟩, hrow⟩

theorem nodup_leafMessages {db : Db} (hdb : DagInvariant db) (id : SummaryId) :
    ((leafMessages db id).map MessageRow.messageId).Nodup := by
  have hperm := (orderBy_perm MessageRow.seq (sourceRows db id)).map
    MessageRow.messageId
  rw [leafMessages, hperm.nodup_iff]
  have hsublist : ((sourceRows db id).map MessageRow.messageId).Sublist
      (db.summaryMessages.map SummaryMessage.messageId) := by
    rw [sourceRows, List.map_filterMap]
    have hids : ((db.summaryMessages.filter (·.summaryId == id)).filterMap
        fun link => (db.findMessage link.messageId).map MessageRow.messageId) =
          (db.summaryMessages.filter (·.summaryId == id)).map
            SummaryMessage.messageId := by
      rw [← List.filterMap_eq_map]
      apply List.filterMap_congr
      intro link hlink
      obtain ⟨_, row, hrow⟩ :=
        hdb.consistent.sourceLinks link (List.mem_filter.1 hlink).1
      rw [hrow, Option.map_some, (Db.mem_of_findMessage hrow).2]
      rfl
    rw [hids]
    exact List.filter_sublist.map _
  exact hdb.sourceOnce.sublist hsublist

/-- A message is reached through a summary that links it. -/
theorem reaches_iff {db : Db} {root : SummaryId} {messageId : MessageId} :
    Reaches db root messageId ↔ ∃ id,
      Relation.ReflTransGen (IsChild db) root id ∧
        (⟨id, messageId⟩ : SummaryMessage) ∈ db.summaryMessages := by
  constructor
  · intro hreaches
    induction hreaches with
    | source hlink => exact ⟨_, .refl, hlink⟩
    | child hchild _ ih =>
        obtain ⟨id, hpath, hlink⟩ := ih
        exact ⟨id, .head hchild hpath, hlink⟩
  · rintro ⟨id, hpath, hlink⟩
    induction hpath using Relation.ReflTransGen.head_induction_on with
    | refl => exact .source hlink
    | head hchild _ ih => exact .child hchild ih

theorem subtree_of_walk {db : Db} (hdb : DagInvariant db) {fuel : ℕ}
    {root : SummaryId} {visits : List (SummaryId × ℕ)}
    (hwalk : Traversal.walk (sortedChildren db) fuel [(root, 0)] [root] =
      some visits) : Subtree db root visits := by
  obtain ⟨honce, hreached⟩ := Traversal.walk_root hwalk
  have hsummaries : ∀ id, id ∈ Traversal.nodes visits ↔
      Relation.ReflTransGen (IsChild db) root id := by
    intro id
    rw [hreached]
    have hsame : (fun parent child => child ∈ sortedChildren db parent) =
        IsChild db := by
      funext parent child
      exact propext mem_sortedChildren
    rw [hsame]
  refine ⟨honce, hsummaries, ?_, fun messageId => ?_⟩
  · apply nodup_map_flatMap
    · intro entry _
      exact nodup_leafMessages hdb entry.1
    · apply (List.pairwise_map.1 honce).imp
      intro left right hne row hrow other hother heq
      have hleft := mem_leafMessages hrow
      have hright := mem_leafMessages hother
      have hlinks := List.inj_on_of_nodup_map hdb.sourceOnce hleft hright heq
      exact hne (congrArg SummaryMessage.summaryId hlinks)
  · rw [reaches_iff]
    constructor
    · rintro ⟨id, hpath, hlink⟩
      obtain ⟨entry, hentry, rfl⟩ := List.mem_map.1 ((hsummaries id).2 hpath)
      obtain ⟨row, hrow, hid⟩ := exists_leafMessage hdb.consistent hlink
      exact ⟨row, List.mem_flatMap.2 ⟨entry, hentry, hrow⟩, hid⟩
    · rintro ⟨row, hrow, rfl⟩
      obtain ⟨entry, hentry, hmem⟩ := List.mem_flatMap.1 hrow
      exact ⟨entry.1, (hsummaries entry.1).1 (List.mem_map_of_mem hentry),
        mem_leafMessages hmem⟩

/-- The loop has fuel for the whole walk. -/
theorem exists_walk (db : Db) (root : SummaryId) :
    ∃ visits, Traversal.walk (sortedChildren db) (db.summaryParents.length + 1)
      [(root, 0)] [root] = some visits := by
  have hchildren : ∀ parent, ∀ child ∈ sortedChildren db parent,
      child ∈ (db.summaryParents.map SummaryParent.summaryId).toFinset := by
    intro parent child hchild
    rw [mem_sortedChildren] at hchild
    rw [List.mem_toFinset]
    exact List.mem_map.2 ⟨_, hchild, rfl⟩
  apply Traversal.walk_isSome hchildren
  have hcard := List.toFinset_card_le
    (db.summaryParents.map SummaryParent.summaryId)
  rw [List.length_map] at hcard
  have hdiff := Finset.card_le_card (Finset.sdiff_subset
    (s := (db.summaryParents.map SummaryParent.summaryId).toFinset)
    (t := [root].toFinset))
  rw [List.length_singleton]
  omega

/-- The expansion stopped at the token cap. -/
def isTruncated : Option (Except Stop String) → Bool
  | some (.error (.truncated _)) => true
  | _ => false

theorem includes_mention {isWord : Char → Bool}
    {payloads : FileId → Option String} {row : MessageRow} {id : FileId}
    {payload : String} (hid : id ∈ extractFileIds isWord row.content)
    (hpayload : payloads id = some payload) :
    Text.Includes (messageText isWord payloads row) (payloadText id payload) := by
  have hmention : mentionText payloads id = payloadText id payload := by
    simp only [mentionText, hpayload]
  rw [messageText, ← hmention]
  exact (Text.includes_join (List.mem_map_of_mem hid)).append_left _

/-- An expansion below the depth of its root that stays below the token cap
writes the subtree of the root: each summary below it once, each message below
it once, and with each message the payloads of the files it refers to. -/
theorem expand_lossless (sha256 : List UInt8 → List UInt8)
    (jsonPath : String → Option String) (text : PayloadText) (cfg : IngestConfig)
    {isWord : Char → Bool} (hwords : AsciiWords isWord)
    (events : List StoreEvent) {root : SummaryRow}
    (hroot : root ∈ (worldHistory sha256 jsonPath text cfg
      events).store.db.summaries)
    {depth cap : ℕ} (hdepth : root.depth < depth)
    (hcap : isTruncated (expand isWord
      (worldHistory sha256 jsonPath text cfg events).store.payloads
      (worldHistory sha256 jsonPath text cfg events).store.db cap
      root.conversationId root.summaryId depth true) = false) :
    let world := worldHistory sha256 jsonPath text cfg events
    ∃ visits, Subtree world.store.db root.summaryId visits ∧
      expand isWord world.store.payloads world.store.db cap root.conversationId
          root.summaryId depth true =
        some (.ok (String.join (visits.map
          (visitText isWord world.store.payloads world.store.db)))) ∧
      ∀ row ∈ visitedMessages world.store.db visits,
        ∀ reference ∈ world.written, reference.messageId = row.messageId →
          ∃ payload, world.store.payloads reference.fileId = some payload ∧
            Text.Includes (messageText isWord world.store.payloads row)
              (payloadText reference.fileId payload) := by
  intro world
  have hstore := store_worldHistory sha256 jsonPath text cfg events
  have hdb : DagInvariant world.store.db := by
    rw [hstore]
    exact dagInvariant_storeHistory sha256 jsonPath text cfg events
  have hsources : LeafSources world.store.db := by
    rw [hstore]
    refine (db_storeHistory sha256 jsonPath text cfg
      (P := fun db => db.Consistent ∧ LeafSources db) ⟨Db.consistent_empty, ?_⟩
      (leafSources_step sha256) events).2
    intro link hlink
    cases hlink
  obtain ⟨visits, hwalk⟩ := exists_walk world.store.db root.summaryId
  refine ⟨visits, subtree_of_walk hdb hwalk, ?_, ?_⟩
  · have hexists : (world.store.db.summaries.any fun row =>
        row.summaryId == root.summaryId &&
          row.conversationId == root.conversationId) = true :=
      List.any_eq_true.2 ⟨root, hroot, by simp⟩
    rw [expand, if_pos hexists] at hcap ⊢
    have hstack : ∀ entry ∈ [(root.summaryId, 0)], ∃ row,
        world.store.db.findSummary entry.1 = some row ∧
          entry.2 + row.depth < depth := by
      intro entry hentry
      rw [List.mem_singleton.1 hentry]
      exact ⟨root, hdb.consistent.findSummary_eq hroot, by omega⟩
    rcases expandLoop_walk isWord world.store.payloads cap hdb hsources hstack
      hwalk ⟨"", 0⟩ with hdone | ⟨cut, hcut⟩
    · rwa [String.empty_append] at hdone
    · rw [hcut] at hcap
      cases hcap
  · intro row hrow reference hreference hid
    obtain ⟨hstored, owner, howner, hownerId, hmentions⟩ :=
      recorded_worldHistory sha256 jsonPath text cfg hwords events reference
        hreference
    obtain ⟨payload, hpayload⟩ := Option.isSome_iff_exists.1 hstored
    obtain ⟨entry, _, hmem⟩ := List.mem_flatMap.1 hrow
    have hrowMem : row ∈ world.store.db.messages := by
      rw [leafMessages, mem_orderBy] at hmem
      exact (Db.mem_of_findMessage (List.mem_filterMap.1 hmem).choose_spec.2).1
    have hsame : owner = row :=
      List.inj_on_of_nodup_map hdb.consistent.messageIds howner hrowMem
        (hownerId.trans hid)
    rw [hsame] at hmentions
    exact ⟨payload, hpayload, includes_mention hmentions hpayload⟩

/-! ### A summary of two leaves -/

/-- SHA-256 on the payload and the summaries of `recallRun`. -/
def recallSha256 (bytes : List UInt8) : List UInt8 :=
  if bytes = utf8Bytes "a payload" ++ 124 :: toLeBytes 1 then
    [48, 8, 183, 238, 111, 224, 191, 202, 159, 167, 217, 61, 159, 147, 30, 98,
      225, 117, 73, 111, 69, 241, 38, 55, 215, 164, 143, 254, 241, 224, 255, 42]
  else if bytes = utf8Bytes "a reply" ++ 124 :: toLeBytes 2 then
    [192, 160, 26, 100, 204, 104, 45, 214, 59, 163, 168, 252, 7, 203, 133, 177,
      221, 9, 83, 174, 150, 157, 119, 109, 16, 19, 130, 136, 158, 38, 116, 214]
  else if bytes = utf8Bytes "both|sum_3008b7ee6fe0bfca|sum_c0a01a64cc682dd6" then
    [228, 144, 66, 235, 4, 219, 161, 235, 251, 160, 56, 200, 189, 192, 87, 196,
      86, 74, 148, 30, 6, 175, 212, 0, 2, 132, 169, 9, 238, 210, 154, 53]
  else payloadSha256 bytes

def recallConfig : LcmConfig where
  freshTailCount := 1
  leafChunkTokens := 10
  minCondensedFanout := 2

/-- A payload and a reply are summarized apart, then their summaries together. -/
def recallRun : List StoreEvent :=
  [.openSession "main" "2025-01-01 00:00:00",
   .push 1 (.user longPayload) "44 times z" "2025-01-01 00:00:01",
   .push 1 (.assistant "first") "" "2025-01-01 00:00:02",
   .push 1 (.user "go on") "" "2025-01-01 00:00:03",
   .push 1 (.assistant "second") "" "2025-01-01 00:00:04",
   .compact 1 recallConfig [⟨"a payload", .normal, 70, 1⟩,
     ⟨"a reply", .normal, 1, 1⟩, ⟨"both", .normal, 2, 1⟩]]

def recallWorld : World :=
  worldHistory recallSha256 (fun _ => none) plainText smallConfig recallRun

def recallRoot : SummaryRow where
  summaryId := "sum_e49042eb04dba1eb"
  conversationId := 1
  kind := .condensed
  depth := 1
  content := "both"
  tokenCount := 1
  earliestAt := "2025-01-01 00:00:01"
  latestAt := "2025-01-01 00:00:02"
  descendantCount := 2
  descendantTokenCount := 71
  sourceMessageTokenCount := 71
  model := "level1"

theorem recallRoot_stored : recallRoot ∈ recallWorld.store.db.summaries := by
  decide +kernel

theorem expand_lossless_recallRoot :
    ∃ visits, Subtree recallWorld.store.db recallRoot.summaryId visits ∧
      expand asciiWord recallWorld.store.payloads recallWorld.store.db 1000 1
          recallRoot.summaryId 2 true =
        some (.ok (String.join (visits.map (visitText asciiWord
          recallWorld.store.payloads recallWorld.store.db)))) ∧
      ∀ row ∈ visitedMessages recallWorld.store.db visits,
        ∀ reference ∈ recallWorld.written, reference.messageId = row.messageId →
          ∃ payload, recallWorld.store.payloads reference.fileId = some payload ∧
            Text.Includes (messageText asciiWord recallWorld.store.payloads row)
              (payloadText reference.fileId payload) :=
  expand_lossless recallSha256 (fun _ => none) plainText smallConfig
    asciiWords_asciiWord recallRun recallRoot_stored (by decide)
    (by decide +kernel)

end Kitaebot.Lcm.Recall
