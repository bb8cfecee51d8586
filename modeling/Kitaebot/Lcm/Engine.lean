import Kitaebot.Lcm.Store

/-!
# The LCM engine

Ingest, assembly, repair and session switching of `engine.rs`, as functions on
the database.  JSON parsing is third-party code: `jsonPath` stands for reading
the string field `path` out of a tool-call argument string.
-/

namespace Kitaebot.Lcm

open OrderedTable

/-! ## Messages and their rows -/

def roleOf : Message → Role
  | .user _ => .user
  | .assistant _ => .assistant
  | .toolCalls _ _ => .assistant
  | .tool _ _ => .tool
  | .system _ => .system

def textPart (ordinal : ℕ) (content : String) : MessagePart where
  partType := .text
  ordinal := ordinal
  textContent := some content
  toolCallId := none
  toolName := none
  toolInput := none

def toolOutputPart (callId content : String) : MessagePart where
  partType := .toolOutput
  ordinal := 0
  textContent := some content
  toolCallId := some callId
  toolName := none
  toolInput := none

def toolCallPart (ordinal : ℕ) (call : ToolCall) : MessagePart where
  partType := .toolCall
  ordinal := ordinal
  textContent := none
  toolCallId := some call.id
  toolName := some call.function.name.value
  toolInput := some call.function.arguments

/-- The tool-call rows from a given ordinal on. -/
def toolCallParts : ℕ → List ToolCall → List MessagePart
  | _, [] => []
  | ordinal, call :: calls =>
      toolCallPart ordinal call :: toolCallParts (ordinal + 1) calls

/-- The `message_parts` rows of a message. -/
def insertParts : Message → List MessagePart
  | .user content => [textPart 0 content]
  | .assistant content => [textPart 0 content]
  | .system content => [textPart 0 content]
  | .tool callId content => [toolOutputPart callId content]
  | .toolCalls content calls => textPart 0 content :: toolCallParts 1 calls

/-- Read a `TEXT` column that must not be `NULL`. -/
def column (name : String) : Option String → Except EngineError String
  | some text => .ok text
  | none => .error (.sqlite ("Invalid column type Null, name: " ++ name))

/-- One stored tool call; a name that no longer parses is a corrupt row. -/
def reconstructCall (messageId : MessageId) (part : MessagePart) :
    Except EngineError ToolCall := do
  let id ← column "tool_call_id" part.toolCallId
  let name ← column "tool_name" part.toolName
  let arguments ← column "tool_input" part.toolInput
  match ToolName.parse name with
  | .ok name => .ok ⟨id, ⟨name, arguments⟩⟩
  | .error offender => .error (.storage
      ("message " ++ toString messageId ++ ": " ++ offender.text))

/-- The tool-call parts of a message in ordinal order. -/
def MessageRow.callParts (row : MessageRow) : List MessagePart :=
  orderBy MessagePart.ordinal (row.parts.filter (·.partType == .toolCall))

/-- Rebuild a message from its row and its parts. -/
def reconstructMessage (row : MessageRow) : Except EngineError Message :=
  match row.role with
  | .user => .ok (.user row.content)
  | .system => .ok (.system row.content)
  | .tool =>
      match row.parts.find? (·.partType == .toolOutput) with
      | none => .error (.sqlite "Query returned no rows")
      | some part => do
          let callId ← column "tool_call_id" part.toolCallId
          .ok (.tool callId row.content)
  | .assistant => do
      let calls ← row.callParts.mapM (reconstructCall row.messageId)
      if calls.isEmpty then .ok (.assistant row.content)
      else .ok (.toolCalls row.content calls)

/-- The row ingest writes for a message. -/
def messageRow (messageId : MessageId) (conversation : ConversationId)
    (seq : ℕ) (now : String) (message : Message) : MessageRow where
  messageId := messageId
  conversationId := conversation
  seq := seq
  role := roleOf message
  content := message.content
  tokenCount := message.tokenEstimate
  createdAt := now
  parts := insertParts message

/-- What a message reads back as: a tool-call message without calls has only
its text part. -/
def asStored : Message → Message
  | .toolCalls content [] => .assistant content
  | message => message

theorem increasing_toolCallParts (calls : List ToolCall) (ordinal : ℕ) :
    Increasing MessagePart.ordinal (toolCallParts ordinal calls) ∧
      ∀ part ∈ toolCallParts ordinal calls,
        ordinal ≤ part.ordinal ∧ part.partType = .toolCall := by
  induction calls generalizing ordinal with
  | nil => exact ⟨List.Pairwise.nil, by simp [toolCallParts]⟩
  | cons call calls ih =>
      obtain ⟨hincreasing, hbound⟩ := ih (ordinal + 1)
      refine ⟨List.pairwise_cons.mpr ⟨?_, hincreasing⟩, ?_⟩
      · intro part hpart
        have := (hbound part hpart).1
        simp only [toolCallPart]
        omega
      · intro part hpart
        rcases List.mem_cons.mp hpart with rfl | htail
        · exact ⟨le_rfl, rfl⟩
        · obtain ⟨hle, htype⟩ := hbound part htail
          exact ⟨by omega, htype⟩

theorem mapM_reconstructCall (messageId : MessageId) (calls : List ToolCall)
    (ordinal : ℕ) :
    (toolCallParts ordinal calls).mapM (reconstructCall messageId) =
      .ok calls := by
  induction calls generalizing ordinal with
  | nil => rfl
  | cons call calls ih =>
      have hcall : reconstructCall messageId (toolCallPart ordinal call) =
          .ok call := by
        simp [reconstructCall, toolCallPart, column, bind, Except.bind]
      rw [toolCallParts, List.mapM_cons, hcall, ih]
      rfl

/-- The call parts of a tool-call row are its calls, in order. -/
theorem callParts_messageRow (messageId : MessageId)
    (conversation : ConversationId) (seq : ℕ) (now content : String)
    (calls : List ToolCall) :
    (messageRow messageId conversation seq now
      (.toolCalls content calls)).callParts = toolCallParts 1 calls := by
  obtain ⟨hincreasing, htype⟩ := increasing_toolCallParts calls 1
  have hfilter : (insertParts (.toolCalls content calls)).filter
      (·.partType == .toolCall) = toolCallParts 1 calls := by
    rw [insertParts, List.filter_cons_of_neg (by simp [textPart])]
    rw [List.filter_eq_self]
    intro part hpart
    simp [(htype part hpart).2]
  rw [MessageRow.callParts, messageRow, hfilter]
  exact orderBy_eq hincreasing (List.Perm.refl _)

/-- Reading a stored row back gives the message. -/
@[simp]
theorem reconstructMessage_messageRow (messageId : MessageId)
    (conversation : ConversationId) (seq : ℕ) (now : String)
    (message : Message) :
    reconstructMessage (messageRow messageId conversation seq now message) =
      .ok (asStored message) := by
  cases message with
  | user content => rfl
  | system content => rfl
  | tool callId content => rfl
  | assistant content => rfl
  | toolCalls content calls =>
      have hrole : (messageRow messageId conversation seq now
          (.toolCalls content calls)).role = .assistant := rfl
      rw [reconstructMessage, hrole]
      simp only [callParts_messageRow, mapM_reconstructCall, bind, Except.bind]
      cases calls with
      | nil => rfl
      | cons call calls => rfl

/-! ## Ingest -/

/-- `INSERT OR IGNORE INTO large_files`: the first row of an id stays. -/
def insertLargeFile (conversation : ConversationId) (messageId : MessageId)
    (files : List LargeFile) : Option LargeFileRow → List LargeFile
  | none => files
  | some row =>
      if files.any (·.row.fileId == row.fileId) then files
      else files ++ [⟨row, conversation, messageId⟩]

/-- Persist a message and append it to the conversation's context. -/
def pushMessageSync (db : Db) (conversation : ConversationId)
    (message : Message) (largeFile : Option LargeFileRow) (now : String) : Db :=
  let seq := nextKey MessageRow.seq (db.conversationMessages conversation)
  let messageId := nextRowid MessageRow.messageId db.messages
  let nextOrd := nextKey ContextItem.ordinal (db.conversationItems conversation)
  { db with
    messages := db.messages ++
      [messageRow messageId conversation seq now message]
    largeFiles := insertLargeFile conversation messageId db.largeFiles largeFile
    contextItems := db.contextItems ++
      [⟨conversation, nextOrd, .message messageId⟩] }

/-- Drop the active context only; messages and summaries stay. -/
def clear (db : Db) (conversation : ConversationId) : Db :=
  { db with
    contextItems :=
      db.contextItems.filter fun item => !(item.conversationId == conversation) }

/-! ## Repair and sessions -/

def interruptedToolCall : String :=
  "Error: the previous turn ended before this tool call completed."

/-- The latest message of the conversation that has a tool-call part. -/
def latestToolCalls (db : Db) (conversation : ConversationId) :
    Option MessageRow :=
  (orderBy MessageRow.seq
    ((db.conversationMessages conversation).filter fun row =>
      row.parts.any (·.partType == .toolCall))).getLast?

/-- Some message after `seq` is not a tool result. -/
def laterNonTool (db : Db) (conversation : ConversationId) (seq : ℕ) : Bool :=
  (db.conversationMessages conversation).any fun later =>
    decide (seq < later.seq) && !(later.role == .tool)

/-- Some message after `seq` holds a result for the call. -/
def laterResult (db : Db) (conversation : ConversationId) (seq : ℕ)
    (callId : Option String) : Bool :=
  (db.conversationMessages conversation).any fun result =>
    decide (seq < result.seq) && result.parts.any fun part =>
      part.partType == .toolOutput && part.toolCallId == callId &&
        callId.isSome

/-- The calls of the latest tool-call message that have no result, when only
tool results follow it. -/
def danglingCalls (db : Db) (conversation : ConversationId) :
    Except EngineError (List String) :=
  match latestToolCalls db conversation with
  | none => .ok []
  | some latest =>
      (latest.callParts.filter fun call =>
        !laterNonTool db conversation latest.seq &&
          !laterResult db conversation latest.seq call.toolCallId).mapM
        fun call => column "tool_call_id" call.toolCallId

/-- Append results for tool calls left at the recoverable conversation tail. -/
def repairDanglingToolCalls (db : Db) (conversation : ConversationId)
    (now : String) : Except EngineError Db := do
  let callIds ← danglingCalls db conversation
  .ok (callIds.foldl (fun db callId => pushMessageSync db conversation
    (.tool callId interruptedToolCall) none now) db)

/-- Look up or create a conversation by name. -/
def ensureConversation (db : Db) (name : String) : Db × ConversationId :=
  match db.conversations.find? (·.name == name) with
  | some row => (db, row.conversationId)
  | none =>
      let id := nextRowid Conversation.conversationId db.conversations
      ({ db with conversations := db.conversations ++ [⟨id, name⟩] }, id)

/-! ## Assembly -/

def SummaryKind.text : SummaryKind → String
  | .leaf => "leaf"
  | .condensed => "condensed"

/-- The synthetic system message of a summary item. -/
def summaryMessage (row : SummaryRow) : Message :=
  .system ("<summary id=\"" ++ row.summaryId ++ "\" kind=\"" ++ row.kind.text ++
    "\" depth=\"" ++ toString row.depth ++ "\" earliest_at=\"" ++
    row.earliestAt ++ "\" latest_at=\"" ++ row.latestAt ++ "\">\n" ++
    row.content ++ "\n</summary>")

def writtenFilesCap : ℕ := 30

def writtenFilesHeader : String := "## Files Written For This Request"

def recallGuidance : String :=
  "## Compacted History\n\n" ++
  "Summaries above are compressed context: maps to details, not the " ++
  "details themselves. Use retrieval tools before asserting specifics " ++
  "from summaries.\n\n" ++
  "Tool escalation:\n" ++
  "1. lcm_grep: search by keyword or regex\n" ++
  "2. lcm_describe: inspect a specific summary's metadata and lineage\n" ++
  "3. lcm_expand: drill into a summary to retrieve children or source " ++
  "messages (sub-agent only)\n\n" ++
  "Do not guess exact values (commands, paths, SHAs, config) from " ++
  "condensed summaries. Use lcm_grep to search, or delegate expansion " ++
  "to a sub-agent."

/-- First occurrences, in order, up to the cap. -/
def distinctPaths (cap : ℕ) : List String → List String → List String
  | [], paths => paths
  | path :: rest, paths =>
      if paths.contains path then distinctPaths cap rest paths
      else
        let grown := paths ++ [path]
        if grown.length = cap then grown else distinctPaths cap rest grown

/-- Paths passed to `file_write` and `file_edit` since the newest user message,
newest first, once some message after it is no longer raw in context. -/
def writtenFilesSegment (jsonPath : String → Option String) (db : Db)
    (conversation : ConversationId) : Option String :=
  let messages := db.conversationMessages conversation
  match (messages.filter (·.role == .user)).map (·.seq) |>.max? with
  | none => none
  | some pinnedSeq =>
      let later := messages.filter fun row => decide (pinnedSeq < row.seq)
      let compactedAfterPin := later.any fun row =>
        !(db.conversationItems conversation).any
          (·.ref == .message row.messageId)
      if compactedAfterPin then
        let inputs := ((orderBy MessageRow.seq later).flatMap fun row =>
          (row.callParts.filter fun part =>
            part.toolName == some "file_write" ||
              part.toolName == some "file_edit").filterMap
            (·.toolInput)).reverse
        let paths := distinctPaths writtenFilesCap
          (inputs.filterMap jsonPath) []
        if paths.isEmpty then none
        else some (writtenFilesHeader ++ "\n" ++ "\n".intercalate paths)
      else none

/-- The provider-bound message of one context item. -/
def assembleItem (db : Db) (item : ContextItem) : Except EngineError Message :=
  match item.ref with
  | .message id =>
      match db.findMessage id with
      | some row => reconstructMessage row
      | none => .error (.sqlite "Invalid column type Null, name: message_id")
  | .summary id =>
      match db.findSummary id with
      | some row => .ok (summaryMessage row)
      | none => .error (.sqlite "Invalid column type Null, name: summary_id")

def isSummaryItem (item : ContextItem) : Bool :=
  match item.ref with
  | .message _ => false
  | .summary _ => true

/-- The system prompt, with recall guidance once a summary is in context. -/
def systemContent (jsonPath : String → Option String) (db : Db)
    (conversation : ConversationId) (systemPrompt : String) : String :=
  if (db.orderedItems conversation).any isSummaryItem then
    systemPrompt ++ "\n\n" ++ recallGuidance ++
      (match writtenFilesSegment jsonPath db conversation with
      | some segment => "\n\n" ++ segment
      | none => "")
  else systemPrompt

/-- The ordered message array for a provider call. -/
def assembleSync (jsonPath : String → Option String) (db : Db)
    (conversation : ConversationId) (systemPrompt : String) :
    Except EngineError (List Message) := do
  let messages ← (db.orderedItems conversation).mapM (assembleItem db)
  .ok (.system (systemContent jsonPath db conversation systemPrompt) ::
    messages)

end Kitaebot.Lcm
