import Kitaebot.Core.Pattern
import Kitaebot.Core.Text
import Kitaebot.Lcm.Dag

/-!
# Externalized payloads

Oversized user and tool texts are written to the payload directory under an id
made from their content; the message keeps a reference, and `large_files` a row
with the path the reference names.  The reading of a payload (framing, JSON
layout, excerpts) is a parameter, the summary of a user payload a choice of the
provider.
-/

namespace Kitaebot.Lcm

open OrderedTable

/-! ## File ids and references -/

inductive FileKind where
  | json
  | csv
  | tsv
  | yaml
  | xml
  | sql
  | code
  | text
  | binary
  deriving DecidableEq, Repr

def mimeHint : FileKind → String
  | .json => "application/json"
  | .csv => "text/csv"
  | .tsv => "text/tab-separated-values"
  | .yaml => "application/yaml"
  | .xml => "application/xml"
  | .sql => "application/sql"
  | .code => "text/x-source-code"
  | .text => "text/plain"
  | .binary => "application/octet-stream"

/-- `{value:016x}`. -/
def hexWord (value : UInt64) : List Char :=
  (List.range 16).map fun index =>
    hexDigit (value.toNat / 16 ^ (15 - index) % 16)

/-- `file_` and the first 16 hex digits of SHA-256 over the payload. -/
def fileId (sha256 : List UInt8 → List UInt8) (content : String) : FileId :=
  let digest := sha256 (utf8Bytes content)
  let leading := (digest.take 8).foldl
    (fun (value : UInt64) byte => (value <<< 8) ||| byte.toUInt64) 0
  "file_" ++ String.ofList (hexWord leading)

def fileIdPattern : Pattern :=
  .all [.wordEdge, .literal "file_", .repeated 16 (.one Pattern.hexDigit),
    .wordEdge]

/-- The file ids a text mentions, each once, in lower case. -/
def extractFileIds (isWord : Char → Bool) (content : String) : List FileId :=
  ((Pattern.findIter isWord fileIdPattern content).map fun found =>
    String.ofList (found.toList.map Char.toLower)).eraseDups

def formatFileReference (fileId : FileId) (path : String) (tokenCount : ℕ)
    (summary nextStep : String) : String :=
  let body := if nextStep = "" then Text.trim summary
    else Text.trim summary ++ "\n" ++ nextStep
  "<file id=\"" ++ fileId ++ "\" path=\"" ++ path ++ "\" tokens=\"" ++
    toString tokenCount ++ "\">\n" ++ body ++ "\n</file>"

def looksLikeTestRun (content : String) : Bool :=
  Text.contains "test result:" content || Text.contains "panicked at" content ||
    Text.contains "=== RUN" content ||
    (Text.contains "passed" content && Text.contains "failed" content)

def nextStep (kind : FileKind) (testRun hasSourcePath : Bool) (path : String) :
    String :=
  if testRun then
    "Next: grep pattern='panicked at|FAILED|error' path=" ++ path ++
      " pulls the failures from the stored copy; do not re-run the command."
  else if hasSourcePath then
    "Next: file_read " ++ path ++
      " with offset/limit windows the original file."
  else match kind with
    | .json | .xml | .yaml =>
        "Next: the stored copy at " ++ path ++
          " is line-oriented; grep it or file_read a range of it."
    | _ =>
        "Next: grep pattern=<regex> path=" ++ path ++
          " searches the stored text; file_read " ++ path ++ " windows it."

def codeExtensions : List String :=
  ["c", "cc", "cpp", "cs", "go", "h", "hpp", "java", "js", "jsx", "kt", "m",
    "php", "py", "rb", "rs", "scala", "sh", "swift", "ts", "tsx"]

/-- The extension of the last component of a path. -/
def extension (path : Option String) : Option String := do
  let path ← path
  let base := String.ofList (path.toList.reverse.takeWhile fun symbol =>
    symbol != '/' && symbol != '\\').reverse
  let (stem, ext) ← Text.rsplitOnce '.' base
  if stem = "" || ext = "" || 10 < ext.utf8ByteSize then none
  else
    let ext := String.ofList (ext.toList.map Char.toLower)
    if ext.toList.all Char.isAlphanum then some ext else none

def binarySniffBytes : ℕ := 4096

def isControl (symbol : Char) : Bool :=
  symbol.toNat < 32 || (127 ≤ symbol.toNat && symbol.toNat < 160)

/-- Control symbols other than white space and escapes. -/
def looksBinary (content : String) : Bool :=
  (Text.leadingSymbols binarySniffBytes content.toList).any fun symbol =>
    isControl symbol && !(symbol == '\n' || symbol == '\r' || symbol == '\t' ||
      symbol.toNat == 27)

/-- The kind of a payload, by the extension of its path or by its first symbol. -/
def detectKind (path : Option String) (content : String) : FileKind :=
  if looksBinary content then .binary
  else match extension path with
    | some ext =>
        if ext = "json" then .json
        else if ext = "csv" then .csv
        else if ext = "tsv" then .tsv
        else if ext = "yaml" || ext = "yml" then .yaml
        else if ext = "xml" then .xml
        else if ext = "sql" then .sql
        else if codeExtensions.contains ext then .code
        else .text
    | none =>
        match (content.toList.dropWhile Text.isWhitespace).head? with
        | some '\x7b' => .json
        | some '[' => .json
        | some '<' => .xml
        | _ => .text

/-! ### Ids are found where they are mentioned -/

/-- ASCII letters, digits and underscores make words, other ASCII symbols do
not. -/
def AsciiWords (isWord : Char → Bool) : Prop :=
  ∀ symbol : Char, symbol.toNat < 128 →
    isWord symbol = (symbol.isAlphanum || symbol == '_')

def idStart : List Char := "file_".toList

/-- The symbols of a file id: the start and 16 lower-case hex digits. -/
structure IsFileId (chars : List Char) : Prop where
  start : idStart <+: chars
  length : chars.length = 21
  digits : ∀ symbol ∈ chars.drop 5, ∃ value < 16, symbol = hexDigit value

theorem hexDigit_facts : ∀ value < 16,
    Pattern.hexDigit (hexDigit value) = true ∧
      (hexDigit value).toLower = hexDigit value ∧
      (hexDigit value).toNat < 128 ∧ (hexDigit value).isAlphanum = true := by
  decide

theorem isFileId_fileId (sha256 : List UInt8 → List UInt8) (content : String) :
    IsFileId (fileId sha256 content).toList where
  start := by simp [fileId, idStart]
  length := by simp [fileId, hexWord]
  digits := by
    intro symbol hsymbol
    simp only [fileId, String.toList_append, String.toList_ofList] at hsymbol
    rw [List.drop_left' (by decide), hexWord] at hsymbol
    obtain ⟨index, _, rfl⟩ := List.mem_map.1 hsymbol
    exact ⟨_, Nat.mod_lt _ (by decide), rfl⟩

theorem IsFileId.split {chars : List Char} (hid : IsFileId chars) :
    chars = idStart ++ chars.drop 5 := by
  obtain ⟨rest, rfl⟩ := hid.start
  rw [List.drop_left' (by decide)]

/-- Ids are in lower case. -/
theorem IsFileId.toLower {chars : List Char} (hid : IsFileId chars) :
    chars.map Char.toLower = chars := by
  have hdigits : (chars.drop 5).map Char.toLower = chars.drop 5 := by
    conv_rhs => rw [← List.map_id (chars.drop 5)]
    apply List.map_congr_left
    intro symbol hsymbol
    obtain ⟨value, hvalue, rfl⟩ := hid.digits symbol hsymbol
    exact (hexDigit_facts value hvalue).2.1
  calc chars.map Char.toLower = (idStart ++ chars.drop 5).map Char.toLower := by
        rw [← hid.split]
    _ = idStart ++ chars.drop 5 := by
        rw [List.map_append, hdigits]
        rfl
    _ = chars := hid.split.symm

/-- An id between symbols that make no words is matched. -/
theorem IsFileId.ends {isWord : Char → Bool} (hwords : AsciiWords isWord)
    {chars : List Char} (hid : IsFileId chars) {before : Option Char}
    (hbefore : before.any isWord = false) {rest : List Char}
    (hrest : rest.head?.any isWord = false) :
    fileIdPattern.ends isWord before (chars ++ rest) =
      [(chars.getLast?, rest)] := by
  have hlength : (chars.drop 5).length = 16 := by
    rw [List.length_drop, hid.length]
  have hne : chars.drop 5 ≠ [] := List.ne_nil_of_length_eq_add_one hlength
  have hlast : (chars.drop 5).getLast? = chars.getLast? := by
    conv_rhs => rw [hid.split, List.getLast?_append_of_ne_nil _ hne]
  have hhead : (chars ++ rest).head?.any isWord = true := by
    rw [hid.split]
    exact (hwords 'f' (by decide)).trans (by decide)
  have hends : (chars.getLast?).any isWord = true := by
    rw [← hlast, List.getLast?_eq_some_getLast hne]
    obtain ⟨value, hvalue, heq⟩ := hid.digits _ (List.getLast_mem hne)
    have hfacts := hexDigit_facts value hvalue
    rw [heq]
    exact (hwords _ hfacts.2.2.1).trans (by rw [hfacts.2.2.2]; rfl)
  have hallowed : ∀ symbol ∈ chars.drop 5, Pattern.hexDigit symbol = true := by
    intro symbol hsymbol
    obtain ⟨value, hvalue, rfl⟩ := hid.digits symbol hsymbol
    exact (hexDigit_facts value hvalue).1
  have hdigits : (Pattern.repeated 16 (.one Pattern.hexDigit)).ends isWord
      idStart.getLast? (chars.drop 5 ++ rest) = [(chars.getLast?, rest)] := by
    rw [← hlength, ← hlast]
    exact Pattern.ends_repeated_one hne hallowed _ rest
  have hliteral : Pattern.after idStart before (chars ++ rest) =
      some (idStart.getLast?, chars.drop 5 ++ rest) := by
    conv_lhs => rw [hid.split, List.append_assoc]
    rw [Pattern.after_append]
    rfl
  change (Pattern.seq .wordEdge (.seq (.text idStart) (.seq
    (.repeated 16 (.one Pattern.hexDigit)) .wordEdge))).ends isWord before _ = _
  rw [Pattern.ends_seq (Pattern.ends_wordEdge (by rw [hbefore, hhead]; rfl)),
    Pattern.ends_seq (Pattern.ends_text hliteral), Pattern.ends_seq hdigits,
    Pattern.ends_wordEdge (by rw [hends, hrest]; rfl)]

/-- Nothing is matched where no id starts. -/
theorem ends_fileIdPattern {isWord : Char → Bool} {input : List Char}
    (hinput : ¬ idStart <+: input) (before : Option Char) :
    fileIdPattern.ends isWord before input = [] := by
  change (Pattern.seq .wordEdge (.seq (.text idStart) (.seq
    (.repeated 16 (.one Pattern.hexDigit)) .wordEdge))).ends isWord before _ = _
  cases hedge : before.any isWord != input.head?.any isWord with
  | true =>
      rw [Pattern.ends_seq (Pattern.ends_wordEdge hedge), Pattern.ends,
        Pattern.ends, Pattern.after_eq_none _ hinput]
      rfl
  | false =>
      rw [Pattern.ends, Pattern.ends, hedge]
      rfl

theorem extractFileIds_of_findIter {isWord : Char → Bool} {content : String}
    {chars : List Char} (hid : IsFileId chars)
    (hmem : chars ∈ Pattern.matchesFrom isWord fileIdPattern 0 none
      content.toList) :
    String.ofList chars ∈ extractFileIds isWord content := by
  rw [extractFileIds, List.mem_eraseDups, List.mem_map]
  refine ⟨String.ofList chars, List.mem_map.2 ⟨chars, hmem, rfl⟩, ?_⟩
  rw [String.toList_ofList, hid.toLower]

/-- An id mentions itself and nothing else. -/
theorem extractFileIds_fileId {isWord : Char → Bool} (hwords : AsciiWords isWord)
    (sha256 : List UInt8 → List UInt8) (content : String) :
    extractFileIds isWord (fileId sha256 content) = [fileId sha256 content] := by
  have hid := isFileId_fileId sha256 content
  have hne : (fileId sha256 content).toList ≠ [] :=
    List.ne_nil_of_length_eq_add_one hid.length
  have hends : fileIdPattern.ends isWord none
      ((fileId sha256 content).toList ++ []) = [(_, [])] :=
    hid.ends hwords rfl rfl
  have hmatches := Pattern.matchesFrom_match hne hends
  rw [List.append_nil] at hmatches
  rw [extractFileIds, Pattern.findIter, hmatches]
  simp [Pattern.matchesFrom, hid.toLower, List.eraseDups_cons]

/-- The text before the id of a reference. -/
def referenceStart : List Char := "<file id=\"".toList

theorem referenceStart_tails : ∀ suffix ∈ referenceStart.tails, suffix ≠ [] →
    suffix.head? ≠ some 'f' ∨ 5 ≤ suffix.length ∧ suffix.take 5 ≠ idStart := by
  decide

theorem ends_referenceStart {isWord : Char → Bool} (rest : List Char)
    (before : Option Char) :
    ∀ suffix ∈ referenceStart.tails, suffix ≠ [] →
      fileIdPattern.ends isWord before (suffix ++ rest) = [] := by
  intro suffix hsuffix hne
  apply ends_fileIdPattern
  intro hleading
  rcases referenceStart_tails suffix hsuffix hne with hhead | ⟨hlong, htake⟩
  · cases suffix with
    | nil => exact hne rfl
    | cons symbol suffix =>
        obtain ⟨hsymbol, _⟩ := List.cons_prefix_cons.1 hleading
        exact hhead (congrArg some hsymbol.symm)
  · apply htake
    have hwhole := List.prefix_iff_eq_take.1 hleading
    rwa [show idStart.length = 5 from rfl, List.take_append_of_le_length hlong,
      eq_comm] at hwhole

/-- A reference mentions its id. -/
theorem fileId_mem_reference {isWord : Char → Bool} (hwords : AsciiWords isWord)
    (sha256 : List UInt8 → List UInt8) (content path : String) (tokenCount : ℕ)
    (summary nextStep : String) :
    fileId sha256 content ∈ extractFileIds isWord
      (formatFileReference (fileId sha256 content) path tokenCount summary
        nextStep) := by
  have hid := isFileId_fileId sha256 content
  have hne : (fileId sha256 content).toList ≠ [] :=
    List.ne_nil_of_length_eq_add_one hid.length
  obtain ⟨rest, hrest⟩ : ∃ rest : List Char,
      (formatFileReference (fileId sha256 content) path tokenCount summary
        nextStep).toList = referenceStart ++
          ((fileId sha256 content).toList ++ '"' :: rest) := by
    simp only [formatFileReference, String.toList_append, List.append_assoc]
    exact ⟨_, rfl⟩
  have hquote : isWord '"' = false :=
    (hwords '"' (by decide)).trans (by decide)
  have hbefore : (referenceStart.getLast?.or none).any isWord = false := by
    have hlast : referenceStart.getLast?.or none = some '"' := by decide
    rw [hlast]
    exact hquote
  have hends := hid.ends hwords hbefore
    (show (('"' :: rest).head?.any isWord) = false from hquote)
  have hmem : (fileId sha256 content).toList ∈ Pattern.matchesFrom isWord
      fileIdPattern 0 none (formatFileReference (fileId sha256 content) path
        tokenCount summary nextStep).toList := by
    rw [hrest, Pattern.matchesFrom_append (ends_referenceStart _),
      Pattern.matchesFrom_match hne hends]
    exact List.mem_cons_self
  have hfound := extractFileIds_of_findIter hid hmem
  rwa [String.ofList_toList] at hfound

/-! ## Ingest -/

/-- How the text of a payload is read. -/
structure PayloadText where
  /-- The payload without the framing of tool output. -/
  stripToolFraming : String → String
  /-- The copy that is stored, JSON laid out in lines. -/
  normalizePayload : String → String
  mechanicalExcerpt : String → String

structure IngestConfig where
  largeFileThreshold : ℕ
  toolOutputTokens : ℕ
  deriving DecidableEq, Repr

/-- The database and the payload directory. -/
structure Store where
  db : Db
  payloads : FileId → Option String

def Store.empty : Store where
  db := Db.empty
  payloads := fun _ => none

/-- Write a payload file. -/
def Store.writePayload (store : Store) (id : FileId) (stored : String) : Store :=
  { store with payloads := Function.update store.payloads id (some stored) }

@[simp]
theorem Store.db_writePayload (store : Store) (id : FileId) (stored : String) :
    (store.writePayload id stored).db = store.db := rfl

section Ingest

variable (sha256 : List UInt8 → List UInt8) (jsonPath : String → Option String)
  (text : PayloadText) (cfg : IngestConfig)

/-- The path argument of the latest `file_read` call with this id. -/
def lookupFileReadPath (db : Db) (conversation : ConversationId)
    (callId : String) : Option String := do
  let row ← (orderBy MessageRow.messageId
    ((db.conversationMessages conversation).filter fun row =>
      row.parts.any fun part => part.partType == .toolCall &&
        part.toolCallId == some callId &&
        part.toolName == some "file_read")).getLast?
  let part ← row.parts.find? fun part => part.partType == .toolCall &&
    part.toolCallId == some callId && part.toolName == some "file_read"
  jsonPath (← part.toolInput)

def payloadPath (id : FileId) : String := "context/lcm/payloads/" ++ id

/-- The reference that stands for a payload, and its `large_files` row. -/
def externalize (content : String) (pathHint : Option String) (summary : String) :
    String × LargeFileRow :=
  let id := fileId sha256 content
  let unframed := text.stripToolFraming content
  let kind := detectKind pathHint unframed
  let tokenCount := estimateTokens content
  let path := pathHint.getD (payloadPath id)
  let next := nextStep kind (looksLikeTestRun unframed) pathHint.isSome path
  (formatFileReference id path tokenCount summary next,
    { fileId := id
      path := path
      mimeType := mimeHint kind
      byteSize := content.utf8ByteSize
      tokenCount := tokenCount
      explorationSummary := summary })

/-- The payload a message is too large for, with the path it was read from. -/
def oversized (db : Db) (conversation : ConversationId) :
    Message → Option (String × Option String)
  | .user content =>
      if cfg.largeFileThreshold < estimateTokens content then
        some (content, none)
      else none
  | .tool callId content =>
      if cfg.toolOutputTokens < estimateTokens content then
        some (content, lookupFileReadPath jsonPath db conversation callId)
      else none
  | _ => none

/-- The summary of a payload: explored for a user text, an excerpt for a tool
result. -/
def payloadSummary (message : Message) (content explored : String) : String :=
  match message with
  | .tool _ _ => text.mechanicalExcerpt (text.stripToolFraming content)
  | _ => explored

def withContent (message : Message) (content : String) : Message :=
  match message with
  | .user _ => .user content
  | .tool callId _ => .tool callId content
  | other => other

/-- The message to store, and the row of its payload. -/
def interceptLarge (db : Db) (conversation : ConversationId) (message : Message)
    (explored : String) : Message × Option LargeFileRow :=
  match oversized jsonPath cfg db conversation message with
  | none => (message, none)
  | some (content, pathHint) =>
      let (reference, row) := externalize sha256 text content pathHint
        (payloadSummary text message content explored)
      (withContent message reference, some row)

/-- Store a message: its payload file first, then its rows in one transaction. -/
def pushMessage (store : Store) (conversation : ConversationId)
    (message : Message) (explored now : String) : Store :=
  let (stored, row) :=
    interceptLarge sha256 jsonPath text cfg store.db conversation message explored
  let store := match oversized jsonPath cfg store.db conversation message with
    | none => store
    | some (content, _) => store.writePayload (fileId sha256 content)
        (text.normalizePayload content)
  { store with db := pushMessageSync store.db conversation stored row now }

end Ingest

/-! ## Runs -/

/-- What the engine does with a store.  A failed push may leave its payload
file. -/
inductive StoreEvent where
  | push (conversation : ConversationId) (message : Message)
      (explored now : String)
  | failedPush (content : String)
  | compact (conversation : ConversationId) (cfg : LcmConfig)
      (outcomes : List EscalationOutcome)
  | clear (conversation : ConversationId)
  | openSession (name : String) (now : String)
  deriving DecidableEq, Repr

section Runs

variable (sha256 : List UInt8 → List UInt8) (jsonPath : String → Option String)
  (text : PayloadText) (cfg : IngestConfig)

def storeStep (store : Store) : StoreEvent → Store
  | .push conversation message explored now =>
      pushMessage sha256 jsonPath text cfg store conversation message explored now
  | .failedPush content =>
      store.writePayload (fileId sha256 content) (text.normalizePayload content)
  | .compact conversation cfg outcomes =>
      { store with db := step sha256 store.db (.compact conversation cfg outcomes) }
  | .clear conversation =>
      { store with db := step sha256 store.db (.clear conversation) }
  | .openSession name now =>
      { store with db := step sha256 store.db (.openSession name now) }

def storeHistory (events : List StoreEvent) : Store :=
  Run.run (storeStep sha256 jsonPath text cfg) Store.empty events

/-- The database event of a store event. -/
def databaseEvent (store : Store) : StoreEvent → Option Event
  | .push conversation message explored now =>
      let (stored, row) := interceptLarge sha256 jsonPath text cfg store.db
        conversation message explored
      some (.push conversation stored row now)
  | .failedPush _ => none
  | .compact conversation cfg outcomes => some (.compact conversation cfg outcomes)
  | .clear conversation => some (.clear conversation)
  | .openSession name now => some (.openSession name now)

theorem db_pushMessage (store : Store) (conversation : ConversationId)
    (message : Message) (explored now : String) :
    (pushMessage sha256 jsonPath text cfg store conversation message explored
      now).db =
      pushMessageSync store.db conversation
        (interceptLarge sha256 jsonPath text cfg store.db conversation message
          explored).1
        (interceptLarge sha256 jsonPath text cfg store.db conversation message
          explored).2 now := by
  unfold pushMessage
  cases oversized jsonPath cfg store.db conversation message with
  | none => rfl
  | some payload => rfl

theorem db_storeStep (store : Store) (event : StoreEvent) :
    (storeStep sha256 jsonPath text cfg store event).db =
      match databaseEvent sha256 jsonPath text cfg store event with
      | some lowered => step sha256 store.db lowered
      | none => store.db := by
  cases event with
  | push conversation message explored now =>
      exact db_pushMessage sha256 jsonPath text cfg store conversation message
        explored now
  | failedPush content => rfl
  | compact conversation cfg outcomes => rfl
  | clear conversation => rfl
  | openSession name now => rfl

/-- What every database event keeps holds of the database of every store. -/
theorem db_storeHistory {P : Db → Prop} (hempty : P Db.empty)
    (hstep : ∀ db event, P db → P (step sha256 db event))
    (events : List StoreEvent) :
    P (storeHistory sha256 jsonPath text cfg events).db := by
  refine @Run.invariant_run Store _ _ (fun store => P store.db) ?_ _ hempty events
  intro store event hstore
  rw [db_storeStep]
  cases databaseEvent sha256 jsonPath text cfg store event with
  | none => exact hstore
  | some lowered => exact hstep _ _ hstore

theorem dagInvariant_storeHistory (events : List StoreEvent) :
    DagInvariant (storeHistory sha256 jsonPath text cfg events).db :=
  db_storeHistory sha256 jsonPath text cfg dagInvariant_empty
    (dagInvariant_step sha256) events

end Runs

/-! ## What was pushed reads back -/

/-- The message is stored as it is, without externalizing its text. -/
def BelowThreshold (cfg : IngestConfig) : Message → Prop
  | .user content => estimateTokens content ≤ cfg.largeFileThreshold
  | .tool _ content => estimateTokens content ≤ cfg.toolOutputTokens
  | _ => True

/-- A tool-call message has a call. -/
def HasCalls : Message → Prop
  | .toolCalls _ calls => calls ≠ []
  | _ => True

theorem asStored_eq {message : Message} (hcalls : HasCalls message) :
    asStored message = message := by
  cases message with
  | toolCalls content calls =>
      cases calls with
      | nil => exact absurd rfl hcalls
      | cons call calls => rfl
  | assistant content => rfl
  | system content => rfl
  | tool callId content => rfl
  | user content => rfl

theorem oversized_eq_none {cfg : IngestConfig} {message : Message}
    (hbelow : BelowThreshold cfg message) (jsonPath : String → Option String)
    (db : Db) (conversation : ConversationId) :
    oversized jsonPath cfg db conversation message = none := by
  cases message with
  | user content => exact if_neg (Nat.not_lt.2 hbelow)
  | tool callId content => exact if_neg (Nat.not_lt.2 hbelow)
  | assistant content => rfl
  | system content => rfl
  | toolCalls content calls => rfl

/-- The context of a conversation is these messages, none of them a summary. -/
structure Assembles (db : Db) (conversation : ConversationId)
    (messages : List Message) : Prop where
  consistent : db.Consistent
  raw : ∀ item ∈ db.orderedItems conversation, isSummaryItem item = false
  reads : (db.orderedItems conversation).mapM (assembleItem db) = .ok messages

theorem assembleItem_extends {before after : Db} (hext : before.Extends after)
    {item : ContextItem} (hresolves : before.Resolves item) :
    assembleItem after item = assembleItem before item := by
  unfold Db.Resolves at hresolves
  cases href : item.ref with
  | message id =>
      rw [href] at hresolves
      obtain ⟨row, hfind, _⟩ := hresolves
      simp only [assembleItem, href, hfind, hext.messages hfind]
  | summary id =>
      rw [href] at hresolves
      obtain ⟨row, hfind⟩ := hresolves
      simp only [assembleItem, href, hfind, hext.summaries hfind]

theorem mapM_eq_of_forall {Value Result Error : Type*}
    {first second : Value → Except Error Result} {values : List Value}
    (hall : ∀ value ∈ values, first value = second value) :
    values.mapM first = values.mapM second := by
  induction values with
  | nil => rfl
  | cons value values ih =>
      rw [List.forall_mem_cons] at hall
      rw [List.mapM_cons, List.mapM_cons, hall.1, ih hall.2]

/-- A push adds its message to what its own conversation assembles to. -/
theorem Assembles.push {db : Db} {conversation : ConversationId}
    {messages : List Message} (hdb : Assembles db conversation messages)
    (target : ConversationId) {message : Message} (hcalls : HasCalls message)
    (largeFile : Option LargeFileRow) (now : String) :
    Assembles (pushMessageSync db target message largeFile now) conversation
      (messages ++ if target = conversation then [message] else []) := by
  have hitems := orderedItems_push target message largeFile now hdb.consistent
    conversation
  have hold : (db.orderedItems conversation).mapM
      (assembleItem (pushMessageSync db target message largeFile now)) =
        .ok messages := by
    rw [← hdb.reads]
    apply mapM_eq_of_forall
    intro item hitem
    exact assembleItem_extends (extends_push db target message largeFile now)
      (hdb.consistent.items item (Db.mem_orderedItems.mp hitem).1)
  constructor
  · exact consistent_push target message largeFile now hdb.consistent
  · intro item hitem
    rw [hitems, List.mem_append] at hitem
    rcases hitem with hitem | hitem
    · exact hdb.raw item hitem
    · split at hitem
      · rw [List.mem_singleton.1 hitem]
        rfl
      · cases hitem
  · rw [hitems, List.mapM_append, hold]
    split
    · have hpushed : assembleItem (pushMessageSync db target message largeFile now)
          (pushedItem db target) = .ok message := by
        simp only [assembleItem, pushedItem, findMessage_pushed target message
          largeFile now hdb.consistent, pushedRow, reconstructMessage_messageRow,
          asStored_eq hcalls]
      simp [hpushed, bind, Except.bind, pure, Except.pure]
    · simp [bind, Except.bind, pure, Except.pure]

theorem Assembles.assemble {db : Db} {conversation : ConversationId}
    {messages : List Message} (hdb : Assembles db conversation messages)
    (jsonPath : String → Option String) (systemPrompt : String) :
    assembleSync jsonPath db conversation systemPrompt =
      .ok (.system systemPrompt :: messages) := by
  have hany : (db.orderedItems conversation).any isSummaryItem = false :=
    List.any_eq_false.2 fun item hitem => by
      rw [hdb.raw item hitem]
      exact Bool.false_ne_true
  rw [assembleSync, hdb.reads, systemContent, hany]
  rfl

/-- A message pushed into a session. -/
structure Push where
  conversation : ConversationId
  message : Message
  explored : String
  now : String
  deriving DecidableEq, Repr

section RoundTrip

variable (sha256 : List UInt8 → List UInt8) (jsonPath : String → Option String)
  (text : PayloadText) (cfg : IngestConfig)

def Push.event (push : Push) : StoreEvent :=
  .push push.conversation push.message push.explored push.now

/-- The messages pushed into a conversation. -/
def pushedInto (conversation : ConversationId) (pushes : List Push) :
    List Message :=
  (pushes.filter (·.conversation == conversation)).map Push.message

theorem Assembles.run {store : Store} {conversation : ConversationId}
    {messages : List Message} (hstore : Assembles store.db conversation messages)
    {pushes : List Push}
    (hpushes : ∀ push ∈ pushes, BelowThreshold cfg push.message ∧
      HasCalls push.message) :
    Assembles (Run.run (storeStep sha256 jsonPath text cfg) store
        (pushes.map Push.event)).db conversation
      (messages ++ pushedInto conversation pushes) := by
  induction pushes generalizing store messages with
  | nil => simpa [pushedInto] using hstore
  | cons push pushes ih =>
      rw [List.forall_mem_cons] at hpushes
      obtain ⟨⟨hbelow, hcalls⟩, hrest⟩ := hpushes
      have hintercept : interceptLarge sha256 jsonPath text cfg store.db
          push.conversation push.message push.explored = (push.message, none) := by
        rw [interceptLarge, oversized_eq_none hbelow]
      have hnext := hstore.push push.conversation hcalls none push.now
      have hdb := db_pushMessage sha256 jsonPath text cfg store push.conversation
        push.message push.explored push.now
      rw [hintercept] at hdb
      rw [← hdb] at hnext
      have hrun := ih hnext hrest
      rw [List.append_assoc] at hrun
      have hpushed : pushedInto conversation (push :: pushes) =
          (if push.conversation = conversation then [push.message] else []) ++
            pushedInto conversation pushes := by
        rw [pushedInto, List.filter_cons]
        by_cases htarget : push.conversation = conversation
        · rw [if_pos (by simpa using htarget), if_pos htarget]
          rfl
        · rw [if_neg (by simpa using htarget), if_neg htarget]
          rfl
      rw [hpushed]
      exact hrun

/-- Messages pushed into an empty context below the externalization threshold
are assembled as they were pushed, and every stored row reads back as its
message. -/
theorem assemble_pushed (events : List StoreEvent)
    (conversation : ConversationId)
    (hempty : (storeHistory sha256 jsonPath text cfg events).db.orderedItems
      conversation = [])
    (pushes : List Push)
    (hpushes : ∀ push ∈ pushes, BelowThreshold cfg push.message ∧
      HasCalls push.message)
    (systemPrompt : String) :
    assembleSync jsonPath
        (Run.run (storeStep sha256 jsonPath text cfg)
          (storeHistory sha256 jsonPath text cfg events)
          (pushes.map Push.event)).db conversation systemPrompt =
        .ok (.system systemPrompt :: pushedInto conversation pushes) ∧
      ∀ (message : Message) (messageId : MessageId) (seq : ℕ) (now : String),
        HasCalls message →
          reconstructMessage (messageRow messageId conversation seq now message) =
            .ok message := by
  constructor
  · have hstart : Assembles (storeHistory sha256 jsonPath text cfg events).db
        conversation [] := by
      constructor
      · exact (dagInvariant_storeHistory sha256 jsonPath text cfg events).consistent
      · rw [hempty]
        intro item hitem
        cases hitem
      · rw [hempty]
        rfl
    exact (hstart.run sha256 jsonPath text cfg hpushes).assemble jsonPath
      systemPrompt
  · intro message messageId seq now hcalls
    rw [reconstructMessage_messageRow, asStored_eq hcalls]

end RoundTrip

/-! ### One message of each kind -/

def plainText : PayloadText where
  stripToolFraming := id
  normalizePayload := id
  mechanicalExcerpt := id

def zeroSha256 (_ : List UInt8) : List UInt8 := []

def smallConfig : IngestConfig where
  largeFileThreshold := 10
  toolOutputTokens := 10

def readCall (id : String) : ToolCall where
  id := id
  function := ⟨⟨"file_read", by decide⟩, "\x7b\x7d"⟩

def eachKind : List Push :=
  [.system "be brief", .user "hello", .toolCalls "" [readCall "a", readCall "a"],
    .tool "a" "text", .assistant "done"].map fun message => ⟨1, message, "", ""⟩

theorem assemble_pushed_eachKind :
    assembleSync (fun _ => none)
        (Run.run (storeStep zeroSha256 (fun _ => none) plainText smallConfig)
          (storeHistory zeroSha256 (fun _ => none) plainText smallConfig
            [.openSession "general" ""])
          (eachKind.map Push.event)).db 1 "prompt" =
        .ok (.system "prompt" :: pushedInto 1 eachKind) ∧
      ∀ (message : Message) (messageId : MessageId) (seq : ℕ) (now : String),
        HasCalls message →
          reconstructMessage (messageRow messageId 1 seq now message) =
            .ok message :=
  assemble_pushed zeroSha256 (fun _ => none) plainText smallConfig
    [.openSession "general" ""] 1 (by decide) eachKind
    (by simp [eachKind, BelowThreshold, HasCalls, smallConfig]; decide) "prompt"

end Kitaebot.Lcm
