import Mathlib.Data.String.Basic
import Kitaebot.Lcm.Engine

/-!
# LCM compaction

The leaf and condensed passes of `compaction.rs`.  SHA-256 is third-party code
and stands as a parameter.  The summarizer is the list of escalation outcomes
it will produce; a cycle whose list runs out was interrupted at that point, so
every prefix of a cycle is also a run of the model.
-/

namespace Kitaebot.Lcm

open OrderedTable

/-! ## Configuration and summarizer outcomes -/

/-- The compaction part of `LcmConfig`. -/
structure LcmConfig where
  freshTailCount : ℕ
  leafChunkTokens : ℕ
  minCondensedFanout : ℕ
  deriving DecidableEq, Repr

inductive EscalationLevel where
  | normal
  | aggressive
  | deterministic
  deriving DecidableEq, Repr

/-- Tag used in the `summaries.model` column. -/
def EscalationLevel.tag : EscalationLevel → String
  | .normal => "level1"
  | .aggressive => "level2"
  | .deterministic => "level3-truncate"

structure EscalationOutcome where
  content : String
  level : EscalationLevel
  inputTokens : ℕ
  outputTokens : ℕ
  deriving DecidableEq, Repr

structure CompactionEvent where
  before : ℕ
  after : ℕ
  deriving DecidableEq, Repr

/-! ## Summary ids -/

/-- `i64::to_le_bytes` of a nonnegative id. -/
def toLeBytes (id : ℕ) : List UInt8 :=
  (List.range 8).map fun index => UInt8.ofNat (id / 256 ^ index)

def utf8Bytes (text : String) : List UInt8 := text.toUTF8.toList

def hexDigit (value : ℕ) : Char :=
  if value < 10 then Char.ofNat (48 + value) else Char.ofNat (87 + value)

/-- `{byte:02x}`. -/
def hexByte (byte : UInt8) : List Char :=
  [hexDigit (byte.toNat / 16), hexDigit (byte.toNat % 16)]

def deriveSummaryIdInner (sha256 : List UInt8 → List UInt8) (content : String)
    (sortedKeys : List (List UInt8)) : SummaryId :=
  let digest := sha256
    (utf8Bytes content ++ sortedKeys.flatMap fun key => 124 :: key)
  "sum_" ++ String.ofList ((digest.take 8).flatMap hexByte)

/-- `sum_` and 16 hex digits of SHA-256 over the content and the sorted source
ids. -/
def deriveSummaryId (sha256 : List UInt8 → List UInt8) (content : String)
    (sourceIds : List MessageId) : SummaryId :=
  deriveSummaryIdInner sha256 content
    ((sourceIds.insertionSort (· ≤ ·)).map toLeBytes)

/-- The variant for condensed summaries, keyed by child summary ids. -/
def deriveSummaryIdStr (sha256 : List UInt8 → List UInt8) (content : String)
    (sourceIds : List SummaryId) : SummaryId :=
  deriveSummaryIdInner sha256 content
    ((sourceIds.insertionSort fun left right => ¬ right < left).map utf8Bytes)

/-! ## Leaf chunks -/

/-- A `'message'` item joined with its `messages` row. -/
structure RawRow where
  ordinal : ℕ
  row : MessageRow
  deriving DecidableEq, Repr

structure ChunkRow where
  ordinal : ℕ
  messageId : MessageId
  tokenCount : ℕ
  createdAt : String
  message : Message
  deriving DecidableEq, Repr

structure LeafChunk where
  rows : List ChunkRow
  deriving DecidableEq, Repr

/-- The message slice fed to the escalator. -/
def LeafChunk.messages (chunk : LeafChunk) : List Message :=
  chunk.rows.map ChunkRow.message

/-- Join one item with its message row; summary items have none. -/
def rawRow (db : Db) (item : ContextItem) : Option RawRow :=
  match item.ref with
  | .message id => (db.findMessage id).map fun row => ⟨item.ordinal, row⟩
  | .summary _ => none

/-- The message items of a conversation with their rows, by ordinal. -/
def rawRows (db : Db) (conversation : ConversationId) : List RawRow :=
  (db.orderedItems conversation).filterMap (rawRow db)

/-- The ordinal of the newest user message in context. -/
def pinnedOrdinal (raw : List RawRow) : Option ℕ :=
  ((raw.filter (·.row.role == .user)).map RawRow.ordinal).max?

/-- Group eligible rows into contiguous chunks: the pin splits the run, and a
row that would take a nonempty chunk over the budget starts a new one. -/
def leafGroups (pinned : Option ℕ) (leafBudget : ℕ) :
    List RawRow → List RawRow → ℕ → List (List RawRow)
  | [], current, _ => if current.isEmpty then [] else [current]
  | row :: rest, current, currentTokens =>
      if some row.ordinal = pinned then
        -- The write path deletes the chunk's whole ordinal range.
        if current.isEmpty then
          leafGroups pinned leafBudget rest current currentTokens
        else current :: leafGroups pinned leafBudget rest [] 0
      else if !current.isEmpty &&
          decide (leafBudget < currentTokens + row.row.tokenCount) then
        current :: leafGroups pinned leafBudget rest [row] row.row.tokenCount
      else
        leafGroups pinned leafBudget rest (current ++ [row])
          (currentTokens + row.row.tokenCount)

def chunkRow (raw : RawRow) : Except EngineError ChunkRow := do
  let message ← reconstructMessage raw.row
  .ok ⟨raw.ordinal, raw.row.messageId, raw.row.tokenCount, raw.row.createdAt,
    message⟩

def leafChunk (group : List RawRow) : Except EngineError LeafChunk := do
  let rows ← group.mapM chunkRow
  .ok ⟨rows⟩

/-- Rows outside the last `freshTailCount` message items. -/
def eligibleRows (cfg : LcmConfig) (raw : List RawRow) : List RawRow :=
  raw.take (raw.length - cfg.freshTailCount)

/-- The groups of eligible rows, before their messages are rebuilt. -/
def loadLeafGroups (db : Db) (conversation : ConversationId)
    (cfg : LcmConfig) : List (List RawRow) :=
  let raw := rawRows db conversation
  leafGroups (pinnedOrdinal raw) cfg.leafChunkTokens (eligibleRows cfg raw) [] 0

/-- Load every leaf-eligible chunk of a conversation. -/
def loadLeafChunks (db : Db) (conversation : ConversationId)
    (cfg : LcmConfig) : Except EngineError (List LeafChunk) :=
  (loadLeafGroups db conversation cfg).mapM leafChunk

/-! ## Writing summaries -/

/-- Lexicographic minimum of the timestamps, empty when there are none. -/
def earliest (times : List String) : String := times.min?.getD ""

/-- Lexicographic maximum of the timestamps, empty when there are none. -/
def latest (times : List String) : String := times.max?.getD ""

/-- Replace an ordinal range of one conversation by a summary item. -/
def replaceItems (db : Db) (conversation : ConversationId)
    (firstOrdinal lastOrdinal : ℕ) (summaryId : SummaryId) : List ContextItem :=
  db.contextItems.filter (fun item =>
    !(item.conversationId == conversation &&
      inRange ContextItem.ordinal firstOrdinal lastOrdinal item)) ++
    [⟨conversation, firstOrdinal, .summary summaryId⟩]

def uniqueViolation : EngineError :=
  .sqlite "UNIQUE constraint failed: summaries.summary_id"

/-- The writes both summary transactions make: insert the summary, link its
sources and children, and replace the ordinal range by its item. -/
def Db.withSummary (db : Db) (row : SummaryRow) (sources : List MessageId)
    (children : List SummaryId) (firstOrdinal lastOrdinal : ℕ) : Db :=
  { db with
    summaries := db.summaries ++ [row]
    summaryMessages := db.summaryMessages ++
      sources.map fun source => ⟨row.summaryId, source⟩
    summaryParents := db.summaryParents ++
      children.map fun child => ⟨child, row.summaryId⟩
    contextItems := replaceItems db row.conversationId firstOrdinal lastOrdinal
      row.summaryId }

/-- The transaction commits as a whole, or fails on a used summary id. -/
def insertSummary (db : Db) (row : SummaryRow) (sources : List MessageId)
    (children : List SummaryId) (firstOrdinal lastOrdinal : ℕ) :
    Except EngineError Db :=
  if db.summaries.any (·.summaryId == row.summaryId) then .error uniqueViolation
  else .ok (db.withSummary row sources children firstOrdinal lastOrdinal)

def leafSummaryRow (conversation : ConversationId) (summaryId : SummaryId)
    (chunk : LeafChunk) (outcome : EscalationOutcome) : SummaryRow where
  summaryId := summaryId
  conversationId := conversation
  kind := .leaf
  depth := 0
  content := outcome.content
  tokenCount := outcome.outputTokens
  earliestAt := earliest (chunk.rows.map ChunkRow.createdAt)
  latestAt := latest (chunk.rows.map ChunkRow.createdAt)
  descendantCount := chunk.rows.length
  descendantTokenCount := (chunk.rows.map ChunkRow.tokenCount).sum
  sourceMessageTokenCount := (chunk.rows.map ChunkRow.tokenCount).sum
  model := outcome.level.tag

/-- Persist the result of summarizing one leaf chunk. -/
def writeLeafSummary (sha256 : List UInt8 → List UInt8) (db : Db)
    (conversation : ConversationId) (chunk : LeafChunk)
    (outcome : EscalationOutcome) : Except EngineError Db :=
  let sources := chunk.rows.map ChunkRow.messageId
  insertSummary db
    (leafSummaryRow conversation
      (deriveSummaryId sha256 outcome.content sources) chunk outcome)
    sources [] (firstKey ChunkRow.ordinal chunk.rows)
    (lastKey ChunkRow.ordinal chunk.rows)

/-! ## Condensed chunks -/

structure CondensedRow where
  ordinal : ℕ
  summaryId : SummaryId
  depth : ℕ
  tokenCount : ℕ
  earliestAt : String
  latestAt : String
  descendantCount : ℕ
  descendantTokenCount : ℕ
  sourceMessageTokenCount : ℕ
  content : String
  deriving DecidableEq, Repr

/-- A contiguous run of summary items of one depth. -/
structure CondensedChunk where
  rows : List CondensedRow
  depth : ℕ
  deriving DecidableEq, Repr

/-- The synthetic messages that wrap each child summary. -/
def CondensedChunk.messages (chunk : CondensedChunk) : List Message :=
  chunk.rows.map fun row => .system
    ("<summary id=\"" ++ row.summaryId ++ "\" depth=\"" ++ toString row.depth ++
      "\">\n" ++ row.content ++ "\n</summary>")

def condensedRow (ordinal : ℕ) (row : SummaryRow) : CondensedRow where
  ordinal := ordinal
  summaryId := row.summaryId
  depth := row.depth
  tokenCount := row.tokenCount
  earliestAt := row.earliestAt
  latestAt := row.latestAt
  descendantCount := row.descendantCount
  descendantTokenCount := row.descendantTokenCount
  sourceMessageTokenCount := row.sourceMessageTokenCount
  content := row.content

/-- One row of the condensed query: a message item is `none`. -/
def condensedEntry (db : Db) (item : ContextItem) :
    Except EngineError (Option CondensedRow) :=
  match item.ref with
  | .message _ => .ok none
  | .summary id =>
      match db.findSummary id with
      | some row => .ok (some (condensedRow item.ordinal row))
      | none => .error (.sqlite "Invalid column type Null, name: summary_id")

/-- End a run: it becomes a chunk when it is long enough and fits. -/
def flushRun (cfg : LcmConfig) (rows : List CondensedRow) (depth : Option ℕ)
    (tokens : ℕ) : List CondensedChunk :=
  match depth with
  | some depth =>
      if cfg.minCondensedFanout ≤ rows.length ∧ tokens ≤ cfg.leafChunkTokens then
        [⟨rows, depth⟩]
      else []
  | none => []

/-- Walk the context and emit one chunk per maximal eligible run of
equal-depth summaries. -/
def condensedRuns (cfg : LcmConfig) :
    List (Option CondensedRow) → List CondensedRow → Option ℕ → ℕ →
      List CondensedChunk
  | [], current, currentDepth, currentTokens =>
      flushRun cfg current currentDepth currentTokens
  | none :: rest, current, currentDepth, currentTokens =>
      flushRun cfg current currentDepth currentTokens ++
        condensedRuns cfg rest [] none 0
  | some row :: rest, current, currentDepth, currentTokens =>
      if currentDepth = some row.depth then
        condensedRuns cfg rest (current ++ [row]) currentDepth
          (currentTokens + row.tokenCount)
      else
        flushRun cfg current currentDepth currentTokens ++
          condensedRuns cfg rest [row] (some row.depth) row.tokenCount

/-- Load every condensed-eligible chunk of a conversation. -/
def loadCondensedChunks (db : Db) (conversation : ConversationId)
    (cfg : LcmConfig) : Except EngineError (List CondensedChunk) := do
  let raw ← (db.orderedItems conversation).mapM (condensedEntry db)
  .ok (condensedRuns cfg raw [] none 0)

def condensedSummaryRow (conversation : ConversationId)
    (summaryId : SummaryId) (chunk : CondensedChunk)
    (outcome : EscalationOutcome) : SummaryRow where
  summaryId := summaryId
  conversationId := conversation
  kind := .condensed
  depth := chunk.depth + 1
  content := outcome.content
  tokenCount := outcome.outputTokens
  earliestAt := earliest (chunk.rows.map CondensedRow.earliestAt)
  latestAt := latest (chunk.rows.map CondensedRow.latestAt)
  descendantCount := (chunk.rows.map CondensedRow.descendantCount).sum
  descendantTokenCount := (chunk.rows.map CondensedRow.descendantTokenCount).sum
  sourceMessageTokenCount :=
    (chunk.rows.map CondensedRow.sourceMessageTokenCount).sum
  model := outcome.level.tag

/-- Persist the result of summarizing one condensed chunk. -/
def writeCondensedSummary (sha256 : List UInt8 → List UInt8) (db : Db)
    (conversation : ConversationId) (chunk : CondensedChunk)
    (outcome : EscalationOutcome) : Except EngineError Db :=
  let children := chunk.rows.map CondensedRow.summaryId
  insertSummary db
    (condensedSummaryRow conversation
      (deriveSummaryIdStr sha256 outcome.content children) chunk outcome)
    [] children (firstKey CondensedRow.ordinal chunk.rows)
    (lastKey CondensedRow.ordinal chunk.rows)

/-! ## One compaction cycle -/

/-- The token total of a conversation's context items. -/
def tokenEstimateSync (db : Db) (conversation : ConversationId) : ℕ :=
  ((db.conversationItems conversation).map fun item =>
    match item.ref with
    | .message id => ((db.findMessage id).map MessageRow.tokenCount).getD 0
    | .summary id => ((db.findSummary id).map SummaryRow.tokenCount).getD 0).sum

/-- Where a pass stopped: the database as of its last commit, and the outcomes
left, or `none` when a failed write or an interruption ended the cycle. -/
structure PassResult where
  db : Db
  rest : Option (List EscalationOutcome)
  deriving DecidableEq, Repr

/-- Summarize and write each loaded leaf chunk. -/
def leafPass (sha256 : List UInt8 → List UInt8)
    (conversation : ConversationId) :
    List LeafChunk → List EscalationOutcome → Db → PassResult
  | [], outcomes, db => ⟨db, some outcomes⟩
  | _ :: _, [], db => ⟨db, none⟩
  | chunk :: chunks, outcome :: outcomes, db =>
      match writeLeafSummary sha256 db conversation chunk outcome with
      | .error _ => ⟨db, none⟩
      | .ok db => leafPass sha256 conversation chunks outcomes db

/-- The chunks still to write: the rest of the last load, or a new load. -/
def condensedBatch (db : Db) (conversation : ConversationId) (cfg : LcmConfig)
    (pending : List CondensedChunk) : Except EngineError (List CondensedChunk) :=
  if pending.isEmpty then loadCondensedChunks db conversation cfg
  else .ok pending

/-- Write the pending condensed chunks, reload, and repeat until no chunk is
eligible.  Each write takes one outcome, so the list bounds the loop. -/
def condensedPass (sha256 : List UInt8 → List UInt8)
    (conversation : ConversationId) (cfg : LcmConfig)
    (outcomes : List EscalationOutcome) (pending : List CondensedChunk)
    (db : Db) : PassResult :=
  match condensedBatch db conversation cfg pending, outcomes with
  | .error _, _ => ⟨db, none⟩
  | .ok [], outcomes => ⟨db, some outcomes⟩
  | .ok (_ :: _), [] => ⟨db, none⟩
  | .ok (chunk :: chunks), outcome :: outcomes =>
      match writeCondensedSummary sha256 db conversation chunk outcome with
      | .error _ => ⟨db, none⟩
      | .ok db => condensedPass sha256 conversation cfg outcomes chunks db

/-- The leaf pass followed by the condensed loop. -/
def compactionPasses (sha256 : List UInt8 → List UInt8) (db : Db)
    (conversation : ConversationId) (cfg : LcmConfig)
    (outcomes : List EscalationOutcome) : PassResult :=
  match loadLeafChunks db conversation cfg with
  | .error _ => ⟨db, none⟩
  | .ok chunks =>
      match leafPass sha256 conversation chunks outcomes db with
      | ⟨db, none⟩ => ⟨db, none⟩
      | ⟨db, some outcomes⟩ =>
          condensedPass sha256 conversation cfg outcomes [] db

/-- Execute one full compaction cycle.  The event is `none` when the cycle did
not finish. -/
def runCompaction (sha256 : List UInt8 → List UInt8) (db : Db)
    (conversation : ConversationId) (cfg : LcmConfig)
    (outcomes : List EscalationOutcome) : Db × Option CompactionEvent :=
  let result := compactionPasses sha256 db conversation cfg outcomes
  (result.db, result.rest.map fun _ =>
    ⟨tokenEstimateSync db conversation,
      tokenEstimateSync result.db conversation⟩)

end Kitaebot.Lcm
