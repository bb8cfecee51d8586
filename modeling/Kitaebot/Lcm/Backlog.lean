import Kitaebot.Core.SortedMap
import Kitaebot.Lcm.RepositorySessions
import Kitaebot.Lcm.Transcript

/-!
# The backlog of a store

What distillation reads of the store: the tip of every session, the tokens it has from
a watermark on, and its transcript.  Sessions are listed under their names with the
slashes back; no two stored sessions share one, and a listed name leads back to its
conversation.
-/

namespace Kitaebot.Lcm

open OrderedTable
open Context (sanitizeName desanitizeName Sanitized clampSpan tokensOf)

section Db

variable (db : Db)

/-- `MAX(m.seq) + 1` of each conversation with messages. -/
def latestPositionsSync : SortedMap String ℕ :=
  db.conversations.foldl (fun out conversation =>
    let rows := db.conversationMessages conversation.conversationId
    if rows ≠ [] then
      out.insert (desanitizeName conversation.name) (nextKey MessageRow.seq rows)
    else out) .empty

/-- `SUM(token_count)` of the rows at or beyond the watermark. -/
def pendingTokens (since : SortedMap String ℕ) (conversation : Conversation) : ℕ :=
  let watermark := i64OrMax ((since.find? (desanitizeName conversation.name)).getD 0)
  ((pendingRows db conversation.conversationId watermark).map MessageRow.tokenCount).sum

def pendingDistillTokensSync (since : SortedMap String ℕ) : SortedMap String ℕ :=
  db.conversations.foldl (fun out conversation =>
    if 0 < pendingTokens db since conversation then
      out.insert (desanitizeName conversation.name) (pendingTokens db since conversation)
    else out) .empty

/-! ### What is held -/

/-- The conversation listed under a name. -/
def listed (name : String) : Option Conversation :=
  db.conversations.find? fun conversation =>
    decide (desanitizeName conversation.name = name)

/-- The messages of a conversation, oldest first. -/
def storedMessages (conversation : ConversationId) : List Message :=
  (db.conversationMessages conversation).filterMap fun row =>
    (reconstructMessage row).toOption

/-- The messages of the session listed under a name. -/
def held (name : String) : List Message :=
  match listed db name with
  | none => []
  | some conversation => storedMessages db conversation.conversationId

/-- A store whose sessions were opened under sanitized names and read back. -/
structure Enrolled : Prop where
  consistent : db.Consistent
  registered : Registered db
  transcribed : AllTranscribed db
  sanitized : ∀ conversation ∈ db.conversations, Sanitized conversation.name

end Db

/-- Sessions are only opened under sanitized names. -/
def Event.sanitized : Event → Event
  | .openSession name now => .openSession (sanitizeName name) now
  | event => event

section Enrolled

variable {db : Db}

theorem Transcribes.storedMessages_eq {conversation : ConversationId}
    {messages : List Message} (htext : Transcribes db conversation messages) :
    storedMessages db conversation = messages := by
  have hread : ((db.conversationMessages conversation).map reconstructMessage).filterMap
      Except.toOption = storedMessages db conversation := by
    rw [List.filterMap_map]
    rfl
  rw [← hread, htext.read, List.filterMap_map]
  exact List.filterMap_some

theorem Enrolled.transcribes (hdb : Enrolled db) (conversation : ConversationId) :
    Transcribes db conversation (storedMessages db conversation) := by
  obtain ⟨messages, htext⟩ := hdb.transcribed conversation
  rw [htext.storedMessages_eq]
  exact htext

/-- The listed names are told apart. -/
theorem Enrolled.nodup_names (hdb : Enrolled db) :
    (db.conversations.map fun conversation => desanitizeName conversation.name).Nodup := by
  have hnames := hdb.registered.names
  rw [List.Nodup, List.pairwise_map] at hnames ⊢
  apply hnames.imp_of_mem
  intro first second hfirst hsecond hne heq
  exact hne (Context.desanitizeName_inj (hdb.sanitized first hfirst)
    (hdb.sanitized second hsecond) heq)

theorem listed_eq_some (hdb : Enrolled db) {name : String} {conversation : Conversation}
    (hlisted : listed db name = some conversation) :
    conversation ∈ db.conversations ∧ desanitizeName conversation.name = name ∧
      sanitizeName name = conversation.name := by
  have hmem := List.mem_of_find?_eq_some hlisted
  have hname : desanitizeName conversation.name = name := by
    simpa using List.find?_some hlisted
  refine ⟨hmem, hname, ?_⟩
  rw [← hname, (hdb.sanitized conversation hmem).sanitize_desanitize]

/-- A listed name is read under the conversation it is listed for. -/
theorem holds_held (hdb : Enrolled db) {name : String} {conversation : Conversation}
    (hlisted : listed db name = some conversation) : Holds db name (held db name) := by
  obtain ⟨hmem, _, hstem⟩ := listed_eq_some hdb hlisted
  have hfind : db.conversations.find? (·.name == sanitizeName name) =
      some conversation := by
    cases hfound : db.conversations.find? (·.name == sanitizeName name) with
    | none =>
        have hnone := List.find?_eq_none.1 hfound conversation hmem
        exact absurd (beq_iff_eq.2 hstem.symm) hnone
    | some other =>
        have hsame : other.name = sanitizeName name := by
          simpa using List.find?_some hfound
        rw [List.inj_on_of_nodup_map hdb.registered.names
          (List.mem_of_find?_eq_some hfound) hmem (hsame.trans hstem)]
  rw [Holds, hfind, held, hlisted]
  exact hdb.transcribes conversation.conversationId

/-! ### What the reads return -/

theorem find?_latestPositions (hdb : Enrolled db) (name : String) :
    ((latestPositionsSync db).find? name).getD 0 = (held db name).length := by
  have hfold := SortedMap.find?_foldl_insert_item
    (fun conversation : Conversation => desanitizeName conversation.name)
    (fun conversation => nextKey MessageRow.seq
      (db.conversationMessages conversation.conversationId))
    (fun conversation => db.conversationMessages conversation.conversationId ≠ [])
    hdb.nodup_names .empty name
  rw [latestPositionsSync, hfold, SortedMap.find?_empty, Option.or_none]
  change (((listed db name).filter _).map _).getD 0 = _
  rw [held]
  cases listed db name with
  | none => rfl
  | some conversation =>
      have htext := hdb.transcribes conversation.conversationId
      have htip := nextKey_of_range MessageRow.seq htext.seqs
      rw [Option.filter_some]
      split_ifs with hrows
      · exact htip
      · have hnone : db.conversationMessages conversation.conversationId = [] := by
          simpa using hrows
        rw [hnone] at htip
        exact htip

/-- The pending total of a session is that of its messages from the watermark on; with
none the session is left out. -/
theorem find?_pendingDistillTokens (hdb : Enrolled db)
    (hsize : db.messages.length ≤ i64Max) (since : SortedMap String ℕ) (name : String) :
    (pendingDistillTokensSync db since).find? name =
      let tokens := tokensOf Message.tokenEstimate
        ((held db name).drop ((since.find? name).getD 0))
      if 0 < tokens then some tokens else none := by
  have hfold := SortedMap.find?_foldl_insert_item
    (fun conversation : Conversation => desanitizeName conversation.name)
    (pendingTokens db since) (fun conversation => 0 < pendingTokens db since conversation)
    hdb.nodup_names .empty name
  rw [pendingDistillTokensSync, hfold, SortedMap.find?_empty, Option.or_none]
  change ((listed db name).filter _).map _ = _
  cases hlisted : listed db name with
  | none =>
      rw [held, hlisted]
      rw [List.drop_nil]
      rfl
  | some conversation =>
      have hname := (listed_eq_some hdb hlisted).2.1
      have htext := hdb.transcribes conversation.conversationId
      have hpending : pendingTokens db since conversation =
          tokensOf Message.tokenEstimate
            ((held db name).drop ((since.find? name).getD 0)) := by
        have hbound : (db.conversationMessages conversation.conversationId).length ≤
            i64Max := (List.length_filter_le _ _).trans hsize
        rw [pendingTokens, hname, htext.pendingRows, drop_i64OrMax hbound, List.map_drop,
          htext.tokens, tokensOf, held, hlisted, List.map_drop]
      rw [Option.filter_some, hpending]
      by_cases htokens : 0 < tokensOf Message.tokenEstimate
          ((held db name).drop ((since.find? name).getD 0))
      · rw [if_pos (decide_eq_true htokens)]
        exact (congrArg some hpending).trans (if_pos htokens).symm
      · rw [if_neg (by simpa using htokens)]
        exact (if_neg htokens).symm

theorem transcriptSince_held (hdb : Enrolled db) (hsize : db.messages.length ≤ i64Max)
    {name : String} {conversation : Conversation}
    (hlisted : listed db name = some conversation) (after maxTokens : ℕ) :
    transcriptSince db name after maxTokens =
      .ok (clampSpan Message.tokenEstimate maxTokens ((held db name).drop after)) := by
  have hholds := holds_held hdb hlisted
  exact transcriptSince_eq hholds (hholds.length_le.trans hsize) after maxTokens

end Enrolled

/-! ### Runs -/

section Runs

variable {db : Db}

theorem storedMessages_of_messages {after : Db} (hsame : after.messages = db.messages)
    (conversation : ConversationId) :
    storedMessages after conversation = storedMessages db conversation := by
  rw [storedMessages, Db.conversationMessages, hsame, storedMessages,
    Db.conversationMessages]

theorem storedMessages_push (target : ConversationId) (message : Message)
    (largeFile : Option LargeFileRow) (now : String) (conversation : ConversationId) :
    storedMessages db conversation <+:
      storedMessages (pushMessageSync db target message largeFile now) conversation := by
  rw [storedMessages, storedMessages, conversationMessages_push, List.filterMap_append]
  exact List.prefix_append _ _

/-- Conversations are only added, and their messages only appended. -/
structure Grows (db after : Db) : Prop where
  conversations : db.conversations <+: after.conversations
  messages : ∀ conversation, storedMessages db conversation <+:
    storedMessages after conversation

theorem grows_step (sha256 : List UInt8 → List UInt8) (hdb : db.Consistent) (event : Event) :
    Grows db (step sha256 db event) := by
  cases event with
  | push target message largeFile now =>
      exact ⟨List.prefix_rfl, storedMessages_push target message largeFile now⟩
  | compact conversation cfg outcomes =>
      constructor
      · change db.conversations <+:
          (runCompaction sha256 db conversation cfg outcomes).1.conversations
        rw [conversations_runCompaction sha256 hdb conversation cfg outcomes]
      · intro other
        change _ <+: storedMessages (runCompaction sha256 db conversation cfg outcomes).1 other
        rw [storedMessages_of_messages
          (messages_runCompaction sha256 hdb conversation cfg outcomes)]
  | clear conversation => exact ⟨List.prefix_rfl, fun _ => List.prefix_rfl⟩
  | openSession name now =>
      constructor
      · change db.conversations <+: (openSession db name now).1.conversations
        rw [conversations_openSession]
        unfold ensureConversation
        cases db.conversations.find? (·.name == name) with
        | some row => exact List.prefix_rfl
        | none => exact List.prefix_append _ _
      · exact openSession_preserves
          (P := fun after => ∀ conversation, storedMessages db conversation <+:
            storedMessages after conversation)
          (fun _ _ hafter => hafter)
          (fun _ target _ now hafter conversation =>
            (hafter conversation).trans (storedMessages_push target _ none now conversation))
          (fun _ => List.prefix_rfl) name now

theorem Grows.listed {after : Db} (hgrows : Grows db after) {name : String}
    {conversation : Conversation} (hlisted : listed db name = some conversation) :
    Lcm.listed after name = some conversation :=
  hgrows.conversations.find?_eq_some hlisted

/-- What a session holds only grows. -/
theorem Grows.held {after : Db} (hgrows : Grows db after) (name : String) :
    held db name <+: Lcm.held after name := by
  rw [Lcm.held]
  cases hlisted : Lcm.listed db name with
  | none => exact List.nil_prefix
  | some conversation =>
      rw [Lcm.held, hgrows.listed hlisted]
      exact hgrows.messages conversation.conversationId

/-- No message is ever taken out. -/
theorem messages_le_step (sha256 : List UInt8 → List UInt8) (hdb : db.Consistent)
    (event : Event) : db.messages.length ≤ (step sha256 db event).messages.length := by
  have hpush : ∀ (db : Db) (target : ConversationId) (message : Message)
      (largeFile : Option LargeFileRow) (now : String),
      db.messages.length ≤ (pushMessageSync db target message largeFile now).messages.length :=
    fun db target message largeFile now => by
      rw [messages_push, List.length_append]
      exact Nat.le_add_right _ _
  cases event with
  | push target message largeFile now => exact hpush db target message largeFile now
  | compact conversation cfg outcomes =>
      exact Nat.le_of_eq (congrArg List.length
        (messages_runCompaction sha256 hdb conversation cfg outcomes).symm)
  | clear conversation => exact Nat.le_refl _
  | openSession name now =>
      exact openSession_preserves
        (P := fun after => db.messages.length ≤ after.messages.length)
        (fun _ _ hafter => hafter)
        (fun db target _ now hafter => hafter.trans (hpush db target _ none now))
        (Nat.le_refl _) name now

theorem enrolled_empty : Enrolled Db.empty where
  consistent := Db.consistent_empty
  registered := ⟨List.nodup_nil, List.nodup_nil⟩
  transcribed := fun _ => ⟨[], rfl, rfl, rfl⟩
  sanitized := fun _ hmem => absurd hmem List.not_mem_nil

theorem enrolled_step (sha256 : List UInt8 → List UInt8) (hdb : Enrolled db) (event : Event) :
    Enrolled (step sha256 db event.sanitized) where
  consistent := consistent_step sha256 db event.sanitized hdb.consistent
  registered :=
    (registered_step sha256 db event.sanitized ⟨hdb.consistent, hdb.registered⟩).2
  transcribed :=
    (allTranscribed_step sha256 db event.sanitized ⟨hdb.consistent, hdb.transcribed⟩).2
  sanitized := by
    cases event with
    | push target message largeFile now => exact hdb.sanitized
    | compact conversation cfg outcomes =>
        have hsame := conversations_runCompaction sha256 hdb.consistent conversation cfg
          outcomes
        exact fun other hother => hdb.sanitized other (hsame ▸ hother)
    | clear conversation => exact hdb.sanitized
    | openSession name now =>
        intro conversation hmem
        change conversation ∈ (openSession db (sanitizeName name) now).1.conversations at hmem
        rw [conversations_openSession] at hmem
        unfold ensureConversation at hmem
        cases hfind : db.conversations.find? (·.name == sanitizeName name) with
        | some row =>
            rw [hfind] at hmem
            exact hdb.sanitized conversation hmem
        | none =>
            rw [hfind] at hmem
            rcases List.mem_append.1 hmem with hmem | hnew
            · exact hdb.sanitized conversation hmem
            · rw [List.mem_singleton.1 hnew]
              exact Context.sanitized_sanitizeName name

/-- The store after events that open sessions under sanitized names. -/
def enrolledHistory (sha256 : List UInt8 → List UInt8) (events : List Event) : Db :=
  Run.run (fun db event => step sha256 db event.sanitized) Db.empty events

theorem enrolled_history (sha256 : List UInt8 → List UInt8) (events : List Event) :
    Enrolled (enrolledHistory sha256 events) := by
  have hstep : ∀ (db : Db) (event : Event), Enrolled db →
      Enrolled (step sha256 db event.sanitized) := fun _ event hdb => enrolled_step sha256 hdb event
  exact Run.invariant_run hstep enrolled_empty events

theorem listed_of_mem (hdb : Enrolled db) {conversation : Conversation}
    (hmem : conversation ∈ db.conversations) :
    listed db (desanitizeName conversation.name) = some conversation := by
  cases hlisted : listed db (desanitizeName conversation.name) with
  | none =>
      have hnone := List.find?_eq_none.1 hlisted conversation hmem
      exact absurd (decide_eq_true rfl) hnone
  | some other =>
      obtain ⟨hother, hname, _⟩ := listed_eq_some hdb hlisted
      rw [List.inj_on_of_nodup_map hdb.nodup_names hother hmem hname]

theorem switchSession_listed (hdb : Enrolled db) {name : String} {conversation : Conversation}
    (hlisted : listed db name = some conversation) (now : String) :
    (switchSession db name now).2 = conversation.conversationId := by
  obtain ⟨hmem, _, hstem⟩ := listed_eq_some hdb hlisted
  have hensured := ensured_row db (sanitizeName name)
  have hkept := conversations_subset_ensure db (sanitizeName name) hmem
  have hrow := List.inj_on_of_nodup_map (registered_ensure hdb.registered _).names hensured
    hkept hstem
  rw [switchSession, id_openSession]
  exact congrArg Conversation.conversationId hrow

/-- A stored session is listed under a name of its own; under that name it is switched
to, read, and counted, and no other session is. -/
structure LeadsBack (db : Db) (conversation : Conversation) (name : String) : Prop where
  only : ∀ other ∈ db.conversations, desanitizeName other.name = name → other = conversation
  switch : ∀ now, (switchSession db name now).2 = conversation.conversationId
  transcript : ∀ after maxTokens, transcriptSince db name after maxTokens =
    .ok (clampSpan Message.tokenEstimate maxTokens
      ((storedMessages db conversation.conversationId).drop after))
  position : ((latestPositionsSync db).find? name).getD 0 =
    (storedMessages db conversation.conversationId).length
  pending : ∀ since, (pendingDistillTokensSync db since).find? name =
    let tokens := tokensOf Message.tokenEstimate
      ((storedMessages db conversation.conversationId).drop ((since.find? name).getD 0))
    if 0 < tokens then some tokens else none

/-- Every stored session's listed name leads back to it. -/
theorem names_lead_back (sha256 : List UInt8 → List UInt8) (events : List Event)
    (hsize : (enrolledHistory sha256 events).messages.length ≤ i64Max)
    {conversation : Conversation}
    (hmem : conversation ∈ (enrolledHistory sha256 events).conversations) :
    LeadsBack (enrolledHistory sha256 events) conversation
      (desanitizeName conversation.name) := by
  have hdb := enrolled_history sha256 events
  have hlisted := listed_of_mem hdb hmem
  have hheld : held (enrolledHistory sha256 events) (desanitizeName conversation.name) =
      storedMessages (enrolledHistory sha256 events) conversation.conversationId := by
    rw [held, hlisted]
  constructor
  · intro other hother hname
    exact List.inj_on_of_nodup_map hdb.nodup_names hother hmem hname
  · exact switchSession_listed hdb hlisted
  · intro after maxTokens
    rw [← hheld]
    exact transcriptSince_held hdb hsize hlisted after maxTokens
  · rw [← hheld]
    exact find?_latestPositions hdb _
  · intro since
    rw [← hheld]
    exact find?_pendingDistillTokens hdb hsize since _

/-- A repository's session and one whose name only looks like it. -/
def lookalikes : List Event :=
  [.openSession "owner/repo" "", .push 1 (.user "in the repository") none "",
    .openSession "owner---repo" "", .push 2 (.user "elsewhere") none ""]

theorem names_lead_back_lookalikes :
    LeadsBack (enrolledHistory (fun _ => []) lookalikes) ⟨2, "owner---repo"⟩
      (desanitizeName "owner---repo") :=
  names_lead_back (fun _ => []) lookalikes (by decide)
    (show (⟨2, "owner---repo"⟩ : Conversation) ∈ _ by decide)

end Runs

end Kitaebot.Lcm
