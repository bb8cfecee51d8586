import Kitaebot.Lcm.Pairing
import Kitaebot.Lcm.Pinning

/-!
# Repair of dangling tool calls

Opening a session reads the message log and appends a result for every call
left unanswered at its tail.  Calls that something else than a result follows
are left as they are.  The log is never emptied while the context is, so the
two agree as long as no clear falls between a tool-call message and its
results.
-/

namespace Kitaebot.Lcm

open OrderedTable

/-! ## What the log holds -/

/-- The messages of each conversation have distinct `seq`. -/
def LogOrdered (db : Db) : Prop :=
  ∀ conversation,
    ((db.conversationMessages conversation).map MessageRow.seq).Nodup

theorem conversationMessages_push (db : Db) (conversation : ConversationId)
    (message : Message) (largeFile : Option LargeFileRow) (now : String)
    (other : ConversationId) :
    (pushMessageSync db conversation message largeFile
        now).conversationMessages other =
      db.conversationMessages other ++
        if conversation = other then [pushedRow db conversation message now]
        else [] := by
  rw [Db.conversationMessages, messages_push, List.filter_append]
  by_cases hother : conversation = other
  · simp [Db.conversationMessages, pushedRow, messageRow, hother]
  · simp [Db.conversationMessages, pushedRow, messageRow, hother]

theorem logOrdered_push {db : Db} (hdb : LogOrdered db)
    (conversation : ConversationId) (message : Message)
    (largeFile : Option LargeFileRow) (now : String) :
    LogOrdered (pushMessageSync db conversation message largeFile now) := by
  intro other
  rw [conversationMessages_push]
  by_cases hother : conversation = other
  · subst hother
    rw [if_pos rfl]
    exact nodup_append_next (hdb conversation) rfl
  · rw [if_neg hother, List.append_nil]
    exact hdb other

/-! ## Dangling calls after a push -/

/-- The dangling calls only depend on the conversation's messages. -/
theorem danglingCalls_congr {db after : Db} {conversation : ConversationId}
    (hmessages : after.conversationMessages conversation =
      db.conversationMessages conversation) :
    danglingCalls after conversation = danglingCalls db conversation := by
  simp only [danglingCalls, latestToolCalls, laterNonTool, laterResult,
    hmessages]

theorem latestToolCalls_mem {db : Db} {conversation : ConversationId}
    {latest : MessageRow} (hlatest : latestToolCalls db conversation = some latest) :
    latest ∈ db.conversationMessages conversation := by
  have hmem := List.mem_of_getLast? hlatest
  rw [mem_orderBy] at hmem
  exact (List.mem_filter.mp hmem).1

/-- A message without calls leaves the latest tool-call message. -/
theorem latestToolCalls_push (db : Db) (conversation : ConversationId)
    (message : Message) (largeFile : Option LargeFileRow) (now : String)
    (hparts : (insertParts message).any (·.partType == .toolCall) = false) :
    latestToolCalls (pushMessageSync db conversation message largeFile now)
        conversation = latestToolCalls db conversation := by
  rw [latestToolCalls, conversationMessages_push, if_pos rfl,
    List.filter_append, List.filter_cons_of_neg (by
      simp only [pushedRow, messageRow, hparts]
      exact Bool.false_ne_true), List.filter_nil, List.append_nil,
    latestToolCalls]

theorem latestToolCalls_push_calls {db : Db} (hdb : LogOrdered db)
    (conversation : ConversationId) (content : String) {calls : List ToolCall}
    (hcalls : calls ≠ []) (largeFile : Option LargeFileRow) (now : String) :
    latestToolCalls (pushMessageSync db conversation (.toolCalls content calls)
        largeFile now) conversation =
      some (pushedRow db conversation (.toolCalls content calls) now) := by
  obtain ⟨call, rest, rfl⟩ := List.exists_cons_of_ne_nil hcalls
  rw [latestToolCalls, conversationMessages_push, if_pos rfl,
    List.filter_append, List.filter_cons_of_pos (by rfl), List.filter_nil,
    orderBy_append, List.getLast?_concat]
  · exact (hdb conversation).sublist (List.filter_sublist.map _)
  · intro row hrow
    exact lt_nextKey MessageRow.seq (List.mem_filter.mp hrow).1

theorem mapM_column_filter {parts : List MessagePart} {ids : List String}
    (hparts : parts.mapM (fun part => column "tool_call_id" part.toolCallId) =
      .ok ids) (callId : String) :
    (parts.filter fun part => !(some callId == part.toolCallId)).mapM
        (fun part => column "tool_call_id" part.toolCallId) =
      .ok (ids.filter fun id => !id == callId) := by
  have hrelated := mapM_ok_forall₂ hparts
  clear hparts
  induction hrelated with
  | nil => rfl
  | @cons part id parts ids hpart _ ih =>
      cases htool : part.toolCallId with
      | none => simp [htool, column] at hpart
      | some toolCallId =>
          have hid : toolCallId = id := by
            simpa [htool, column] using hpart
          subst hid
          by_cases hsame : callId = toolCallId
          · rw [List.filter_cons_of_neg (by simp [htool, hsame]),
              List.filter_cons_of_neg (by simp [hsame]), ih]
          · rw [List.filter_cons_of_pos (by simpa [htool] using hsame),
              List.filter_cons_of_pos (by simpa using Ne.symm hsame),
              List.mapM_cons, ih, htool]
            rfl

theorem laterNonTool_push (db : Db) (conversation : ConversationId)
    (message : Message) (largeFile : Option LargeFileRow) (now : String)
    {seq : ℕ}
    (hseq : seq < (pushedRow db conversation message now).seq) :
    laterNonTool (pushMessageSync db conversation message largeFile now)
        conversation seq =
      (laterNonTool db conversation seq || !(roleOf message == .tool)) := by
  rw [laterNonTool, conversationMessages_push, if_pos rfl, List.any_append,
    List.any_cons, List.any_nil, Bool.or_false, decide_eq_true hseq,
    Bool.true_and]
  rfl

theorem laterResult_push (db : Db) (conversation : ConversationId)
    (message : Message) (largeFile : Option LargeFileRow) (now : String)
    {seq : ℕ} (hseq : seq < (pushedRow db conversation message now).seq)
    (callId : Option String) :
    laterResult (pushMessageSync db conversation message largeFile now)
        conversation seq callId =
      (laterResult db conversation seq callId ||
        (insertParts message).any fun part =>
          part.partType == .toolOutput && part.toolCallId == callId &&
            callId.isSome) := by
  rw [laterResult, conversationMessages_push, if_pos rfl, List.any_append,
    List.any_cons, List.any_nil, Bool.or_false, decide_eq_true hseq,
    Bool.true_and]
  rfl

theorem latest_lt_pushed {db : Db} {conversation : ConversationId}
    {latest : MessageRow}
    (hlatest : latestToolCalls db conversation = some latest)
    (message : Message) (now : String) :
    latest.seq < (pushedRow db conversation message now).seq :=
  lt_nextKey MessageRow.seq (latestToolCalls_mem hlatest)

/-- A result takes its call off the dangling calls. -/
theorem danglingCalls_push_tool {db : Db} {conversation : ConversationId}
    {ids : List String} (hids : danglingCalls db conversation = .ok ids)
    (callId content : String) (largeFile : Option LargeFileRow) (now : String) :
    danglingCalls (pushMessageSync db conversation (.tool callId content)
        largeFile now) conversation =
      .ok (ids.filter fun id => !id == callId) := by
  have hlatest := latestToolCalls_push db conversation
    (.tool callId content) largeFile now rfl
  rw [danglingCalls] at hids ⊢
  rw [hlatest]
  cases hcalls : latestToolCalls db conversation with
  | none =>
      rw [hcalls] at hids
      cases hids
      rfl
  | some latest =>
      simp only [hcalls] at hids ⊢
      have hlt := latest_lt_pushed hcalls (.tool callId content) now
      rw [← mapM_column_filter hids callId, List.filter_filter]
      congr 1
      apply List.filter_congr
      intro part _
      rw [laterNonTool_push db conversation _ largeFile now hlt,
        laterResult_push db conversation _ largeFile now hlt]
      cases hpart : part.toolCallId with
      | none => simp [insertParts, toolOutputPart, roleOf]
      | some id =>
          simp [insertParts, toolOutputPart, roleOf, Bool.and_comm,
            Bool.and_left_comm]

/-- A plain message ends the chance of a repair. -/
theorem danglingCalls_push_plain (db : Db) (conversation : ConversationId)
    {message : Message} (hrole : roleOf message ≠ .tool)
    (hparts : (insertParts message).any (·.partType == .toolCall) = false)
    (largeFile : Option LargeFileRow) (now : String) :
    danglingCalls (pushMessageSync db conversation message largeFile now)
        conversation = .ok [] := by
  rw [danglingCalls, latestToolCalls_push db conversation message largeFile now
    hparts]
  cases hcalls : latestToolCalls db conversation with
  | none => rfl
  | some latest =>
      have hlt := latest_lt_pushed hcalls message now
      have hnone : (latest.callParts.filter fun call =>
          !laterNonTool (pushMessageSync db conversation message largeFile now)
              conversation latest.seq &&
            !laterResult (pushMessageSync db conversation message largeFile now)
              conversation latest.seq call.toolCallId) = [] := by
        rw [List.filter_eq_nil_iff]
        intro part _
        rw [laterNonTool_push db conversation message largeFile now hlt]
        simp [hrole]
      simp only [hnone]
      rfl

theorem mapM_column_calls (calls : List ToolCall) (ordinal : ℕ) :
    (toolCallParts ordinal calls).mapM
        (fun part => column "tool_call_id" part.toolCallId) =
      .ok (calls.map ToolCall.id) := by
  induction calls generalizing ordinal with
  | nil => rfl
  | cons call calls ih =>
      rw [toolCallParts, List.mapM_cons, ih]
      rfl

/-- After a tool-call message all its calls dangle. -/
theorem danglingCalls_push_calls {db : Db} (hdb : LogOrdered db)
    (conversation : ConversationId) (content : String) {calls : List ToolCall}
    (hcalls : calls ≠ []) (largeFile : Option LargeFileRow) (now : String) :
    danglingCalls (pushMessageSync db conversation (.toolCalls content calls)
        largeFile now) conversation = .ok (calls.map ToolCall.id) := by
  rw [danglingCalls, latestToolCalls_push_calls hdb conversation content hcalls
    largeFile now]
  have hlast : ∀ row ∈ (pushMessageSync db conversation
      (.toolCalls content calls) largeFile now).conversationMessages
        conversation, ¬ (pushedRow db conversation (.toolCalls content calls)
          now).seq < row.seq := by
    intro row hrow
    rw [conversationMessages_push, if_pos rfl] at hrow
    rcases List.mem_append.mp hrow with hold | hnew
    · exact Nat.not_lt.mpr (Nat.le_of_lt (lt_nextKey MessageRow.seq hold))
    · rw [List.mem_singleton.mp hnew]
      exact Nat.lt_irrefl _
  have hnonTool : laterNonTool (pushMessageSync db conversation
      (.toolCalls content calls) largeFile now) conversation
        (pushedRow db conversation (.toolCalls content calls) now).seq =
          false := by
    rw [laterNonTool, List.any_eq_false]
    intro row hrow
    simp [hlast row hrow]
  have hresult : ∀ callId, laterResult (pushMessageSync db conversation
      (.toolCalls content calls) largeFile now) conversation
        (pushedRow db conversation (.toolCalls content calls) now).seq callId =
          false := by
    intro callId
    rw [laterResult, List.any_eq_false]
    intro row hrow
    simp [hlast row hrow]
  have hall : ((pushedRow db conversation (.toolCalls content calls)
      now).callParts.filter fun call =>
        !laterNonTool (pushMessageSync db conversation
          (.toolCalls content calls) largeFile now) conversation
            (pushedRow db conversation (.toolCalls content calls) now).seq &&
        !laterResult (pushMessageSync db conversation
          (.toolCalls content calls) largeFile now) conversation
            (pushedRow db conversation (.toolCalls content calls) now).seq
            call.toolCallId) = toolCallParts 1 calls := by
    rw [List.filter_eq_self.mpr]
    · exact callParts_messageRow _ _ _ _ content calls
    · intro part _
      rw [hnonTool, hresult]
      rfl
  simp only [hall]
  exact mapM_column_calls calls 1

/-- The dangling calls follow the pushed messages. -/
theorem danglingCalls_push {db : Db} (hdb : LogOrdered db)
    {conversation : ConversationId} {ids : List String}
    (hids : danglingCalls db conversation = .ok ids) (message : Message)
    (largeFile : Option LargeFileRow) (now : String) :
    danglingCalls (pushMessageSync db conversation message largeFile now)
        conversation = .ok (track ids message) := by
  have hplain : ∀ plain, roleOf plain ≠ .tool →
      (insertParts plain).any (·.partType == .toolCall) = false →
      danglingCalls (pushMessageSync db conversation plain largeFile now)
        conversation = .ok [] :=
    fun _ hrole hparts =>
      danglingCalls_push_plain db conversation hrole hparts largeFile now
  cases message with
  | tool callId content =>
      exact danglingCalls_push_tool hids callId content largeFile now
  | toolCalls content calls =>
      cases calls with
      | nil => exact hplain (.toolCalls content []) nofun rfl
      | cons call calls =>
          exact danglingCalls_push_calls hdb conversation content (by simp)
            largeFile now
  | user content => exact hplain (.user content) nofun rfl
  | assistant content => exact hplain (.assistant content) nofun rfl
  | system content => exact hplain (.system content) nofun rfl

theorem danglingCalls_push_other (db : Db)
    {conversation other : ConversationId} (hother : conversation ≠ other)
    (message : Message) (largeFile : Option LargeFileRow) (now : String) :
    danglingCalls (pushMessageSync db conversation message largeFile now)
        other = danglingCalls db other := by
  apply danglingCalls_congr
  rw [conversationMessages_push, if_neg hother, List.append_nil]

/-- What every reachable store satisfies: the tables are consistent, the log is
ordered, and reading the dangling calls never fails. -/
structure Sound (db : Db) : Prop where
  consistent : db.Consistent
  ordered : LogOrdered db
  dangling : ∀ conversation, ∃ ids, danglingCalls db conversation = .ok ids

theorem Sound.of_messages {db after : Db} (hdb : Sound db)
    (hconsistent : after.Consistent) (hmessages : after.messages = db.messages) :
    Sound after := by
  have hlog : ∀ conversation, after.conversationMessages conversation =
      db.conversationMessages conversation := by
    intro conversation
    rw [Db.conversationMessages, hmessages, Db.conversationMessages]
  refine ⟨hconsistent, ?_, ?_⟩
  · intro conversation
    rw [hlog]
    exact hdb.ordered conversation
  · intro conversation
    rw [danglingCalls_congr (hlog conversation)]
    exact hdb.dangling conversation

theorem Sound.push {db : Db} (hdb : Sound db) (conversation : ConversationId)
    (message : Message) (largeFile : Option LargeFileRow) (now : String) :
    Sound (pushMessageSync db conversation message largeFile now) where
  consistent := consistent_push conversation message largeFile now hdb.consistent
  ordered := logOrdered_push hdb.ordered conversation message largeFile now
  dangling := by
    intro other
    obtain ⟨ids, hids⟩ := hdb.dangling other
    by_cases hother : conversation = other
    · subst hother
      exact ⟨_, danglingCalls_push hdb.ordered hids message largeFile now⟩
    · exact ⟨ids, (danglingCalls_push_other db hother message largeFile
        now).trans hids⟩

theorem sound_empty : Sound Db.empty where
  consistent := Db.consistent_empty
  ordered := by simp [LogOrdered, Db.empty, Db.conversationMessages]
  dangling := fun conversation => ⟨[], rfl⟩

theorem sound_step (sha256 : List UInt8 → List UInt8) (db : Db) (event : Event)
    (hdb : Sound db) : Sound (step sha256 db event) := by
  cases event with
  | push conversation message largeFile now =>
      exact hdb.push conversation message largeFile now
  | clear conversation =>
      exact hdb.of_messages (consistent_clear conversation hdb.consistent) rfl
  | compact conversation cfg outcomes =>
      exact hdb.of_messages
        (consistent_compaction sha256 hdb.consistent conversation cfg outcomes)
        (keepsRaw_compaction sha256 hdb.consistent conversation cfg
          outcomes).messages
  | openSession name now =>
      exact openSession_preserves (P := Sound)
        (fun _ conversations hdb => hdb.of_messages
          (consistent_conversations hdb.consistent conversations) rfl)
        (fun _ conversation callId now hdb =>
          hdb.push conversation _ none now) hdb name now

theorem sound_history (sha256 : List UInt8 → List UInt8)
    (events : List Event) : Sound (history sha256 events) :=
  Run.invariant_run (sound_step sha256) sound_empty events

/-! ## A second repair -/

/-- The repair pushes take their calls off the dangling calls. -/
theorem danglingCalls_repair {db : Db} (hdb : Sound db)
    {conversation : ConversationId} {dangling : List String}
    (hdangling : danglingCalls db conversation = .ok dangling)
    (now : String) (ids : List String) :
    Sound (ids.foldl (repairPush conversation now) db) ∧
      danglingCalls (ids.foldl (repairPush conversation now) db) conversation =
        .ok (dangling.filter fun id => !ids.contains id) := by
  induction ids generalizing db dangling with
  | nil =>
      refine ⟨hdb, ?_⟩
      simpa using hdangling
  | cons id ids ih =>
      have hnext := danglingCalls_push hdb.ordered hdangling
        (.tool id interruptedToolCall) none now
      obtain ⟨hsound, hrest⟩ := ih (hdb.push conversation
        (.tool id interruptedToolCall) none now) hnext
      refine ⟨hsound, ?_⟩
      rw [List.foldl_cons, repairPush, hrest, track, List.filter_filter]
      congr 1
      apply List.filter_congr
      intro other _
      rw [List.contains_cons, Bool.not_or, Bool.and_comm]

theorem sound_ensure {db : Db} (hdb : Sound db) (name : String) :
    Sound (ensureConversation db name).1 := by
  rw [ensureConversation]
  split
  · exact hdb
  · exact hdb.of_messages (consistent_conversations hdb.consistent _) rfl

/-- Opening a session repairs the tail of its conversation. -/
theorem openSession_eq {db : Db} (hdb : Sound db) (name now : String) :
    ∃ ids, danglingCalls (ensureConversation db name).1
        (ensureConversation db name).2 = .ok ids ∧
      (openSession db name now).2 = (ensureConversation db name).2 ∧
      (openSession db name now).1 =
        ids.foldl (repairPush (ensureConversation db name).2 now)
          (ensureConversation db name).1 := by
  obtain ⟨ids, hids⟩ :=
    (sound_ensure hdb name).dangling (ensureConversation db name).2
  refine ⟨ids, hids, ?_, ?_⟩
  · simp only [openSession, repairDanglingToolCalls, hids]
    rfl
  · simp only [openSession, repairDanglingToolCalls, hids]
    rfl

/-- No call dangles in a session that was just opened. -/
theorem danglingCalls_openSession {db : Db} (hdb : Sound db)
    (name now : String) :
    danglingCalls (openSession db name now).1 (openSession db name now).2 =
      .ok [] := by
  obtain ⟨ids, hids, hconversation, hopened⟩ := openSession_eq hdb name now
  obtain ⟨_, hdone⟩ :=
    danglingCalls_repair (sound_ensure hdb name) hids now ids
  have hnone : ids.filter (fun id => !ids.contains id) = [] := by
    rw [List.filter_eq_nil_iff]
    intro id hid
    simpa using hid
  rw [hconversation, hopened, hdone, hnone]

/-- A repair right after opening a session changes nothing. -/
theorem repair_openSession {db : Db} (hdb : Sound db) (name now later : String) :
    repairDanglingToolCalls (openSession db name now).1
        (openSession db name now).2 later =
      .ok (openSession db name now).1 := by
  rw [repairDanglingToolCalls, danglingCalls_openSession hdb name now]
  rfl

/-! ## Disciplined histories -/

/-- The raw messages in context, as they read back. -/
def contextMessages (db : Db) (conversation : ConversationId) : List Message :=
  (rawRows db conversation).filterMap fun raw =>
    (reconstructMessage raw.row).toOption

/-- What the turn loop promises of one conversation: a result is pushed only
for an unanswered call, the calls of one message have distinct ids, and the
context is not cleared while calls are unanswered. -/
def Disciplined (conversation : ConversationId) (db : Db) : Event → Prop
  | .push target message _ _ => target = conversation →
      MayFollow (unanswered (contextMessages db conversation)) message
  | .clear target => target = conversation →
      unanswered (contextMessages db conversation) = []
  | .compact target _ _ => target ≠ conversation
  | .openSession _ _ => True

instance (conversation : ConversationId) (db : Db) :
    (event : Event) → Decidable (Disciplined conversation db event)
  | .push target message _ _ => inferInstanceAs (Decidable
      (target = conversation →
        MayFollow (unanswered (contextMessages db conversation)) message))
  | .clear target => inferInstanceAs (Decidable (target = conversation →
      unanswered (contextMessages db conversation) = []))
  | .compact target _ _ => inferInstanceAs (Decidable (target ≠ conversation))
  | .openSession _ _ => inferInstanceAs (Decidable True)

/-- The context of a disciplined conversation: raw messages only, whose
unanswered calls are the dangling calls of the log. -/
structure Tracked (conversation : ConversationId) (db : Db)
    (messages : List Message) : Prop where
  sound : Sound db
  raw : ∀ item ∈ db.orderedItems conversation, isSummaryItem item = false
  reads : Reads (rawRows db conversation) messages
  dangling : danglingCalls db conversation = .ok (unanswered messages)
  answering : Answering messages

theorem contextMessages_eq {db : Db} {conversation : ConversationId}
    {messages : List Message}
    (hreads : Reads (rawRows db conversation) messages) :
    contextMessages db conversation = messages := by
  rw [contextMessages]
  generalize rawRows db conversation = raw at hreads
  induction hreads with
  | nil => rfl
  | @cons row message raw messages hrow _ ih =>
      have hread : (reconstructMessage row.row).toOption = some message := by
        rw [hrow]
        rfl
      simp only [List.filterMap_cons, hread, ih]

theorem track_asStored (waiting : List String) (message : Message) :
    track waiting (asStored message) = track waiting message := by
  cases message with
  | toolCalls content calls =>
      cases calls with
      | nil => rfl
      | cons call calls => rfl
  | tool callId content => rfl
  | user content => rfl
  | assistant content => rfl
  | system content => rfl

theorem mayFollow_asStored {waiting : List String} {message : Message}
    (hmay : MayFollow waiting message) : MayFollow waiting (asStored message) := by
  cases message with
  | toolCalls content calls =>
      cases calls with
      | nil => trivial
      | cons call calls => exact hmay
  | tool callId content => exact hmay
  | user content => trivial
  | assistant content => trivial
  | system content => trivial

theorem tracked_push {conversation : ConversationId} {db : Db}
    {messages : List Message} (hdb : Tracked conversation db messages)
    (target : ConversationId) (message : Message)
    (largeFile : Option LargeFileRow) (now : String)
    (hmay : target = conversation → MayFollow (unanswered messages) message) :
    Tracked conversation (pushMessageSync db target message largeFile now)
      (if target = conversation then messages ++ [asStored message]
      else messages) := by
  have hordered := orderedItems_push target message largeFile now
    hdb.sound.consistent conversation
  have hrows := rawRows_push target message largeFile now hdb.sound.consistent
    conversation
  have hsound := hdb.sound.push target message largeFile now
  by_cases htarget : target = conversation
  · subst htarget
    rw [if_pos rfl] at hordered hrows ⊢
    refine ⟨hsound, ?_, ?_, ?_, ?_⟩
    · intro item hitem
      rw [hordered] at hitem
      rcases List.mem_append.mp hitem with hold | hnew
      · exact hdb.raw item hold
      · rw [List.mem_singleton.mp hnew]
        rfl
    · rw [hrows]
      exact List.rel_append hdb.reads
        (.cons (reconstructMessage_messageRow _ _ _ _ message) .nil)
    · rw [danglingCalls_push hdb.sound.ordered hdb.dangling message largeFile now,
        unanswered_concat, track_asStored]
    · exact hdb.answering.concat (mayFollow_asStored (hmay rfl))
  · rw [if_neg htarget, List.append_nil] at hordered hrows
    rw [if_neg htarget]
    refine ⟨hsound, ?_, ?_, ?_, hdb.answering⟩
    · rw [hordered]
      exact hdb.raw
    · rw [hrows]
      exact hdb.reads
    · rw [danglingCalls_push_other db htarget message largeFile now]
      exact hdb.dangling

theorem tracked_repair {conversation : ConversationId} {db : Db}
    {messages : List Message} (hdb : Tracked conversation db messages)
    (target : ConversationId) (now : String) {ids : List String}
    (hids : target = conversation →
      ids.Nodup ∧ ids ⊆ unanswered messages) :
    ∃ repaired, Tracked conversation (ids.foldl (repairPush target now) db)
      repaired := by
  induction ids generalizing db messages with
  | nil => exact ⟨messages, hdb⟩
  | cons id ids ih =>
      have hnext := tracked_push hdb target (.tool id interruptedToolCall) none
        now (fun htarget => (hids htarget).2 List.mem_cons_self)
      refine ih hnext ?_
      intro htarget
      obtain ⟨hnodup, hsubset⟩ := hids htarget
      obtain ⟨hid, hrest⟩ := List.nodup_cons.mp hnodup
      refine ⟨hrest, fun other hother => ?_⟩
      rw [if_pos htarget, unanswered_concat]
      refine List.mem_filter.mpr ⟨hsubset (List.mem_cons_of_mem _ hother), ?_⟩
      have hne : other ≠ id := fun heq => hid (heq ▸ hother)
      simpa using hne

theorem tracked_conversations {conversation : ConversationId} {db : Db}
    {messages : List Message} (hdb : Tracked conversation db messages)
    (conversations : List Conversation) :
    Tracked conversation { db with conversations } messages where
  sound := hdb.sound.of_messages
    (consistent_conversations hdb.sound.consistent conversations) rfl
  raw := hdb.raw
  reads := hdb.reads
  dangling := hdb.dangling
  answering := hdb.answering

theorem tracked_ensure {conversation : ConversationId} {db : Db}
    {messages : List Message} (hdb : Tracked conversation db messages)
    (name : String) :
    Tracked conversation (ensureConversation db name).1 messages := by
  rw [ensureConversation]
  split
  · exact hdb
  · exact tracked_conversations hdb _

theorem tracked_openSession {conversation : ConversationId} {db : Db}
    {messages : List Message} (hdb : Tracked conversation db messages)
    (name now : String) :
    ∃ repaired, Tracked conversation (openSession db name now).1 repaired := by
  obtain ⟨ids, hids, _, hopened⟩ := openSession_eq hdb.sound name now
  have hensured := tracked_ensure hdb name
  rw [hopened]
  apply tracked_repair hensured
  intro htarget
  rw [htarget, hensured.dangling] at hids
  cases hids
  exact ⟨hdb.answering.distinct, List.Subset.refl _⟩

theorem orderedItems_runCompaction_other (sha256 : List UInt8 → List UInt8)
    {db : Db} (hdb : db.Consistent) {conversation other : ConversationId}
    (hother : conversation ≠ other) (cfg : LcmConfig)
    (outcomes : List EscalationOutcome) :
    (runCompaction sha256 db conversation cfg outcomes).1.orderedItems other =
      db.orderedItems other := by
  have hcycle := runCompaction_preserves
    (P := fun after => after.Consistent ∧
      after.orderedItems other = db.orderedItems other) (Q := fun _ => True)
    sha256 cfg (fun _ hafter => hafter.1)
    (fun after group row hafter hgroup _ hrow hfresh =>
      ⟨consistent_leafWrite hafter.1 hgroup hfresh,
        (orderedItems_withSummary_other
          (by rw [hrow.conversationId]; exact hother)).trans hafter.2⟩)
    (fun after chunk row hafter hchunk hrow hfresh =>
      ⟨consistent_condensedWrite hafter.1 hchunk hfresh,
        (orderedItems_withSummary_other
          (by rw [hrow.conversationId]; exact hother)).trans hafter.2⟩)
    outcomes ⟨hdb, rfl⟩ (fun _ _ => trivial)
  exact hcycle.2

theorem tracked_step (sha256 : List UInt8 → List UInt8)
    {conversation : ConversationId} {db : Db} {messages : List Message}
    (hdb : Tracked conversation db messages) {event : Event}
    (hevent : Disciplined conversation db event) :
    ∃ next, Tracked conversation (step sha256 db event) next := by
  have hcontext := contextMessages_eq hdb.reads
  have hsound := sound_step sha256 db event hdb.sound
  cases event with
  | push target message largeFile now =>
      refine ⟨_, tracked_push hdb target message largeFile now ?_⟩
      rw [← hcontext]
      exact hevent
  | openSession name now => exact tracked_openSession hdb name now
  | clear target =>
      have hordered := orderedItems_clear db target conversation
      have hrows := rawRows_clear db target conversation
      by_cases htarget : target = conversation
      · rw [if_pos htarget] at hordered hrows
        have hnone := hevent htarget
        rw [hcontext] at hnone
        refine ⟨[], hsound, ?_, ?_, ?_, Answering.nil⟩
        · intro item hitem
          rw [step, hordered] at hitem
          cases hitem
        · rw [step, hrows]
          exact .nil
        · have hdangling := hdb.dangling
          rw [hnone] at hdangling
          exact hdangling
      · rw [if_neg htarget] at hordered hrows
        refine ⟨messages, hsound, ?_, ?_, hdb.dangling, hdb.answering⟩
        · rw [step, hordered]
          exact hdb.raw
        · rw [step, hrows]
          exact hdb.reads
  | compact target cfg outcomes =>
      have hmessages := (keepsRaw_compaction sha256 hdb.sound.consistent target
        cfg outcomes).messages
      refine ⟨messages, hsound, ?_, ?_, ?_, hdb.answering⟩
      · rw [step, orderedItems_runCompaction_other sha256 hdb.sound.consistent
          hevent]
        exact hdb.raw
      · rw [step, rawRows_runCompaction_other sha256 hdb.sound.consistent hevent]
        exact hdb.reads
      · refine (danglingCalls_congr ?_).trans hdb.dangling
        rw [step, Db.conversationMessages, hmessages, Db.conversationMessages]

theorem tracked_history (sha256 : List UInt8 → List UInt8)
    (conversation : ConversationId) (events : List Event)
    (hmeets : Run.Meets (step sha256) (Disciplined conversation) Db.empty
      events) :
    ∃ messages, Tracked conversation (history sha256 events) messages := by
  have hstep : ∀ db event, (∃ messages, Tracked conversation db messages) →
      Disciplined conversation db event →
      ∃ next, Tracked conversation (step sha256 db event) next :=
    fun db event ⟨_, hdb⟩ hevent => tracked_step sha256 hdb hevent
  refine Run.invariant_of_meets hstep ⟨[], sound_empty, ?_, .nil, rfl,
    Answering.nil⟩ hmeets
  intro item hitem
  cases (Db.mem_orderedItems.mp hitem).1

/-! ## The repaired context -/

/-- While only results follow the last tool-call message, each of its calls has
exactly one. -/
def TailAnswered (messages : List Message) : Prop :=
  ∀ before text calls results,
    messages = before ++ .toolCalls text calls :: results →
    (∀ message ∈ results, message.isTool = true) →
    ∀ call ∈ calls, results.countP (Message.answers call.id) = 1

/-- Each call of the last tool-call message has exactly one result, whatever
follows it. -/
def LastCallsAnswered (messages : List Message) : Prop :=
  ∀ before text calls results,
    messages = before ++ .toolCalls text calls :: results →
    (∀ text calls, .toolCalls text calls ∉ results) →
    ∀ call ∈ calls, results.countP (Message.answers call.id) = 1

theorem assemble_raw {db : Db} {items : List ContextItem}
    (hitems : ∀ item ∈ items, db.Resolves item)
    (hraw : ∀ item ∈ items, isSummaryItem item = false)
    {messages : List Message}
    (hreads : Reads (items.filterMap (rawRow db)) messages) :
    items.mapM (assembleItem db) = .ok messages := by
  induction items generalizing messages with
  | nil =>
      cases hreads
      rfl
  | cons item items ih =>
      have hresolves := hitems item List.mem_cons_self
      have hmessage := hraw item List.mem_cons_self
      unfold Db.Resolves at hresolves
      cases href : item.ref with
      | summary id => simp [isSummaryItem, href] at hmessage
      | message id =>
          rw [href] at hresolves
          obtain ⟨row, hfind, _⟩ := hresolves
          have hrow : rawRow db item = some ⟨item.ordinal, row⟩ := by
            simp only [rawRow, href, hfind, Option.map_some]
          rw [List.filterMap_cons_some hrow] at hreads
          cases hreads with
          | @cons _ message _ messages hhead hrest =>
              have htail := ih
                (fun other hother => hitems other (List.mem_cons_of_mem _ hother))
                (fun other hother => hraw other (List.mem_cons_of_mem _ hother))
                hrest
              have hitem : assembleItem db item = .ok message := by
                simp only [assembleItem, href, hfind]
                exact hhead
              rw [List.mapM_cons, hitem, htail]
              rfl

theorem called_cons {messages : List Message} (hcalled : Called messages)
    (prompt : String) : Called (.system prompt :: messages) := by
  intro before callId content after hsplit
  cases before with
  | nil => cases hsplit
  | cons first before =>
      obtain ⟨rfl, hrest⟩ := List.cons.inj hsplit
      obtain ⟨text, calls, hmem, hid⟩ :=
        hcalled before callId content after hrest
      exact ⟨text, calls, List.mem_cons_of_mem _ hmem, hid⟩

theorem tailAnswered_cons {messages : List Message}
    (hmessages : Answering messages) (hnone : unanswered messages = [])
    (prompt : String) : TailAnswered (.system prompt :: messages) := by
  intro before text calls results hsplit hresults call hcall
  cases before with
  | nil => cases hsplit
  | cons first before =>
      obtain ⟨rfl, hrest⟩ := List.cons.inj hsplit
      have honce :=
        hmessages.once before text calls results hrest hresults call hcall
      rw [hnone] at honce
      simpa using honce

/-- A second repair changes nothing, and in a disciplined history opening a
session leaves a context whose results have their calls and whose last calls
have their results, unless another message already follows them. -/
theorem openSession_repairs (sha256 : List UInt8 → List UInt8)
    (events : List Event) (name now later : String) :
    let opened := openSession (history sha256 events) name now
    repairDanglingToolCalls opened.1 opened.2 later = .ok opened.1 ∧
      (Run.Meets (step sha256) (Disciplined opened.2) Db.empty events →
        ∀ (jsonPath : String → Option String) (systemPrompt : String),
          ∃ messages, assembleSync jsonPath opened.1 opened.2 systemPrompt =
            .ok messages ∧ Called messages ∧ TailAnswered messages) := by
  intro opened
  have hsound := sound_history sha256 events
  refine ⟨repair_openSession hsound name now later, ?_⟩
  intro hmeets jsonPath systemPrompt
  obtain ⟨raw, hraw⟩ := tracked_history sha256 opened.2 events hmeets
  obtain ⟨messages, hopened⟩ := tracked_openSession hraw name now
  have hnone : unanswered messages = [] :=
    Except.ok.inj (hopened.dangling.symm.trans
      (danglingCalls_openSession hsound name now))
  have hitems : ∀ item ∈ opened.1.orderedItems opened.2,
      opened.1.Resolves item := fun item hitem =>
    hopened.sound.consistent.items item (Db.mem_orderedItems.mp hitem).1
  refine ⟨.system (systemContent jsonPath opened.1 opened.2 systemPrompt) ::
    messages, ?_, called_cons hopened.answering.called _,
    tailAnswered_cons hopened.answering hnone _⟩
  rw [assembleSync, assemble_raw hitems hopened.raw hopened.reads]
  rfl

/-! ## Calls that are not at the tail -/

theorem exec_valid : isValidToolName "exec" = true := by decide

def lintCall : ToolCall where
  id := "call_2"
  function := ⟨⟨"exec", exec_valid⟩, "{}"⟩

/-- A session that stops after the first of two results. -/
def stoppedRun : List Event :=
  [.openSession "main" "2025-01-01 00:00:01",
   .push 1 (.user "test and lint") none "2025-01-01 00:00:02",
   .push 1 (.toolCalls "" [testCall, lintCall]) none "2025-01-01 00:00:03",
   .push 1 (.tool "call_1" "all passed") none "2025-01-01 00:00:04"]

theorem openSession_repairs_stopped :
    let opened := openSession (history cutSha256 stoppedRun) "main" "later"
    ∃ messages, assembleSync (fun _ => none) opened.1 opened.2 "" =
      .ok messages ∧ Called messages ∧ TailAnswered messages :=
  (openSession_repairs cutSha256 stoppedRun "main" "later" "later").2
    (by decide) (fun _ => none) ""

/-- A session that stops before any result and is written to again. -/
def buriedRun : List Event :=
  [.openSession "main" "2025-01-01 00:00:01",
   .push 1 (.toolCalls "" [testCall]) none "2025-01-01 00:00:02",
   .push 1 (.user "and now?") none "2025-01-01 00:00:03"]

/-- A result that no call asked for. -/
def strayRun : List Event :=
  [.openSession "main" "2025-01-01 00:00:01",
   .push 1 (.tool "call_1" "all passed") none "2025-01-01 00:00:02"]

/-- Two calls under one id, with no result. -/
def twinRun : List Event :=
  [.openSession "main" "2025-01-01 00:00:01",
   .push 1 (.toolCalls "" [testCall, testCall]) none "2025-01-01 00:00:02"]

/-- The context after the last opening, without its system message. -/
def reopened (events : List Event) : Option (List Message) :=
  let opened := openSession (history cutSha256 events) "main" "later"
  (assembleSync (fun _ => none) opened.1 opened.2 "").toOption.map List.tail

theorem assembled_of_reopened {events : List Event} {tail : List Message}
    (hreopened : reopened events = some tail) :
    let opened := openSession (history cutSha256 events) "main" "later"
    ∃ prompt, assembleSync (fun _ => none) opened.1 opened.2 "" =
      .ok (.system prompt :: tail) := by
  intro opened
  rw [reopened] at hreopened
  rw [assembleSync] at hreopened ⊢
  cases hitems : (opened.1.orderedItems opened.2).mapM
      (assembleItem opened.1) with
  | error error => rw [hitems] at hreopened; cases hreopened
  | ok messages =>
      rw [hitems] at hreopened
      cases hreopened
      exact ⟨_, rfl⟩

/-- Calls that another message follows stay unanswered, a stray result stays,
and an id that stands twice gets two results. -/
theorem openSession_leaves :
    (let opened := openSession (history cutSha256 buriedRun) "main" "later"
      ∃ messages, assembleSync (fun _ => none) opened.1 opened.2 "" =
        .ok messages ∧ ¬ LastCallsAnswered messages) ∧
    (let opened := openSession (history cutSha256 strayRun) "main" "later"
      ∃ messages, assembleSync (fun _ => none) opened.1 opened.2 "" =
        .ok messages ∧ ¬ Called messages) ∧
    (let opened := openSession (history cutSha256 twinRun) "main" "later"
      ∃ messages, assembleSync (fun _ => none) opened.1 opened.2 "" =
        .ok messages ∧ ¬ LastCallsAnswered messages) := by
  have hburied : reopened buriedRun =
      some [.toolCalls "" [testCall], .user "and now?"] := by decide
  have hstray : reopened strayRun = some [.tool "call_1" "all passed"] := by
    decide
  have htwin : reopened twinRun =
      some [.toolCalls "" [testCall, testCall],
        .tool "call_1" interruptedToolCall,
        .tool "call_1" interruptedToolCall] := by decide
  refine ⟨?_, ?_, ?_⟩
  · obtain ⟨prompt, hmessages⟩ := assembled_of_reopened hburied
    refine ⟨_, hmessages, fun hanswered => ?_⟩
    have honce := hanswered [.system prompt] "" [testCall] [.user "and now?"] rfl
      (by simp) testCall (by simp)
    cases honce
  · obtain ⟨prompt, hmessages⟩ := assembled_of_reopened hstray
    refine ⟨_, hmessages, fun hcalled => ?_⟩
    obtain ⟨_, _, hmem, _⟩ :=
      hcalled [.system prompt] "call_1" "all passed" [] rfl
    simp at hmem
  · obtain ⟨prompt, hmessages⟩ := assembled_of_reopened htwin
    refine ⟨_, hmessages, fun hanswered => ?_⟩
    have honce := hanswered [.system prompt] "" [testCall, testCall] _ rfl
      (by simp) testCall (by simp)
    cases honce

end Kitaebot.Lcm
