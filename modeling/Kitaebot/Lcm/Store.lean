import Kitaebot.Core.OrderedTable
import Kitaebot.Types

/-!
# The LCM database

The tables of `migrations/0001_baseline.sql` that ingest, assembly, repair and
compaction read.  A `message_parts` row belongs to one message and is written
in its transaction, so the parts are stored with the message row.  The `CHECK`
constraints on roles, part types, kinds and item types are inductive types.
-/

namespace Kitaebot.Lcm

abbrev ConversationId := ℕ
abbrev MessageId := ℕ
abbrev SummaryId := String
abbrev FileId := String

structure Conversation where
  conversationId : ConversationId
  name : String
  deriving DecidableEq, Repr

inductive Role where
  | user
  | assistant
  | tool
  | system
  deriving DecidableEq, Repr

inductive PartType where
  | text
  | toolCall
  | toolOutput
  deriving DecidableEq, Repr

/-- A `message_parts` row. -/
structure MessagePart where
  partType : PartType
  ordinal : ℕ
  textContent : Option String
  toolCallId : Option String
  toolName : Option String
  toolInput : Option String
  deriving DecidableEq, Repr

structure MessageRow where
  messageId : MessageId
  conversationId : ConversationId
  seq : ℕ
  role : Role
  content : String
  tokenCount : ℕ
  createdAt : String
  parts : List MessagePart
  deriving DecidableEq, Repr

inductive SummaryKind where
  | leaf
  | condensed
  deriving DecidableEq, Repr

structure SummaryRow where
  summaryId : SummaryId
  conversationId : ConversationId
  kind : SummaryKind
  depth : ℕ
  content : String
  tokenCount : ℕ
  earliestAt : String
  latestAt : String
  descendantCount : ℕ
  descendantTokenCount : ℕ
  sourceMessageTokenCount : ℕ
  model : String
  deriving DecidableEq, Repr

/-- A `summary_messages` row: a leaf summary and one of its sources. -/
structure SummaryMessage where
  summaryId : SummaryId
  messageId : MessageId
  deriving DecidableEq, Repr

/-- A `summary_parents` row: a child summary and the summary that covers it. -/
structure SummaryParent where
  summaryId : SummaryId
  parentSummaryId : SummaryId
  deriving DecidableEq, Repr

structure LargeFileRow where
  fileId : FileId
  path : String
  mimeType : String
  byteSize : ℕ
  tokenCount : ℕ
  explorationSummary : String
  deriving DecidableEq, Repr

/-- A `large_files` row as stored: the metadata and where it was first seen. -/
structure LargeFile where
  row : LargeFileRow
  conversationId : ConversationId
  firstSeenMessageId : MessageId
  deriving DecidableEq, Repr

/-- What a context item stands for; the table's `CHECK` makes the two id
columns exclusive. -/
inductive ItemRef where
  | message (id : MessageId)
  | summary (id : SummaryId)
  deriving DecidableEq, Repr

structure ContextItem where
  conversationId : ConversationId
  ordinal : ℕ
  ref : ItemRef
  deriving DecidableEq, Repr

structure Db where
  conversations : List Conversation
  messages : List MessageRow
  summaries : List SummaryRow
  summaryMessages : List SummaryMessage
  summaryParents : List SummaryParent
  largeFiles : List LargeFile
  contextItems : List ContextItem
  deriving DecidableEq, Repr

/-- The database right after the migrations. -/
def Db.empty : Db where
  conversations := []
  messages := []
  summaries := []
  summaryMessages := []
  summaryParents := []
  largeFiles := []
  contextItems := []

/-- The failures of `EngineError` that the modelled functions produce. -/
inductive EngineError where
  | sqlite (text : String)
  | storage (text : String)
  deriving DecidableEq, Repr

namespace Db

/-- `SELECT ... FROM messages WHERE conversation_id = ?1`. -/
def conversationMessages (db : Db) (conversation : ConversationId) :
    List MessageRow :=
  db.messages.filter (·.conversationId == conversation)

/-- The rows of `context_items` of one conversation, in insertion order. -/
def conversationItems (db : Db) (conversation : ConversationId) :
    List ContextItem :=
  db.contextItems.filter (·.conversationId == conversation)

/-- `SELECT ... FROM context_items WHERE conversation_id = ?1 ORDER BY ordinal`. -/
def orderedItems (db : Db) (conversation : ConversationId) :
    List ContextItem :=
  OrderedTable.orderBy ContextItem.ordinal (db.conversationItems conversation)

def findMessage (db : Db) (id : MessageId) : Option MessageRow :=
  db.messages.find? (·.messageId == id)

def findSummary (db : Db) (id : SummaryId) : Option SummaryRow :=
  db.summaries.find? (·.summaryId == id)

end Db

/-- Rowids of an `AUTOINCREMENT` table start at one. -/
def nextRowid {Row : Type*} (rowid : Row → ℕ) (rows : List Row) : ℕ :=
  max 1 (OrderedTable.nextKey rowid rows)

end Kitaebot.Lcm
