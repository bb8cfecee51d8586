import Kitaebot.Core.SortedMap
import Kitaebot.Core.Text
import Kitaebot.Context.Names
import Kitaebot.Context.Span
import Kitaebot.Types

/-!
# The flat session store

One file for each session, the active session in memory.  Timestamps are left out,
a file that cannot be read or parsed has no session, and the store's own
operations do not fail otherwise.
-/

namespace Kitaebot.Context

/-- A file with its session, or why there is none in it. -/
structure SessionFile where
  fileName : String
  session : Except String (List Message)

/-- The session directory: no two files have one name. -/
structure Directory where
  files : List SessionFile
  nodup : (files.map SessionFile.fileName).Nodup

namespace Directory

def empty : Directory := ⟨[], List.nodup_nil⟩

def find? (directory : Directory) (fileName : String) : Option SessionFile :=
  directory.files.find? (·.fileName = fileName)

def writeFile (file : SessionFile) : List SessionFile → List SessionFile
  | [] => [file]
  | other :: files =>
      if other.fileName = file.fileName then file :: files
      else other :: writeFile file files

theorem mem_names_writeFile {file : SessionFile} {name : String}
    {files : List SessionFile} :
    name ∈ (writeFile file files).map SessionFile.fileName ↔
      name = file.fileName ∨ name ∈ files.map SessionFile.fileName := by
  induction files with
  | nil => simp [writeFile]
  | cons other files ih =>
      rw [writeFile]
      split_ifs with hsame
      · simp [hsame]
      · rw [List.map_cons, List.mem_cons, ih, List.map_cons, List.mem_cons]
        exact or_left_comm

theorem nodup_writeFile (file : SessionFile) {files : List SessionFile}
    (hnodup : (files.map SessionFile.fileName).Nodup) :
    ((writeFile file files).map SessionFile.fileName).Nodup := by
  induction files with
  | nil => exact List.pairwise_singleton _ _
  | cons other files ih =>
      rw [List.map_cons, List.nodup_cons] at hnodup
      rw [writeFile]
      split_ifs with hsame
      · rw [List.map_cons, List.nodup_cons]
        exact hsame ▸ hnodup
      · rw [List.map_cons, List.nodup_cons]
        refine ⟨fun hmem => ?_, ih hnodup.2⟩
        rcases mem_names_writeFile.1 hmem with heq | hmem
        · exact hsame heq
        · exact hnodup.1 hmem

/-- Write the file whole, in place of one of its name. -/
def write (directory : Directory) (file : SessionFile) : Directory :=
  ⟨writeFile file directory.files, nodup_writeFile file directory.nodup⟩

theorem find?_writeFile (file : SessionFile) (name : String) (files : List SessionFile) :
    (writeFile file files).find? (·.fileName = name) =
      if name = file.fileName then some file else files.find? (·.fileName = name) := by
  induction files with
  | nil => simp [writeFile, eq_comm]
  | cons other files ih =>
      rw [writeFile]
      by_cases hname : name = file.fileName
      · rw [if_pos hname] at ih ⊢
        split_ifs with hsame
        · simp [hname]
        · rw [List.find?_cons_of_neg (by simp [hname, hsame]), ih]
      · rw [if_neg hname] at ih ⊢
        split_ifs with hsame
        · rw [List.find?_cons_of_neg (by simp [Ne.symm hname]),
            List.find?_cons_of_neg (by simp [hsame, Ne.symm hname])]
        · rw [List.find?_cons, List.find?_cons, ih]

theorem find?_write (directory : Directory) (file : SessionFile) (name : String) :
    (directory.write file).find? name =
      if name = file.fileName then some file else directory.find? name :=
  find?_writeFile file name directory.files

end Directory

/-- `Path::file_stem` and `Path::extension` of a file name. -/
def splitFileName (fileName : String) : String × Option String :=
  match Text.rsplitOnce '.' fileName with
  | none => (fileName, none)
  | some (before, after) => if before = "" then (fileName, none) else (before, some after)

def sessionFileName (name : String) : String := sanitizeName name ++ ".json"

structure SessionInfo where
  name : String
  messageCount : ℕ
  estimatedTokens : ℕ
  deriving DecidableEq, Repr

structure ContextConfig where
  maxTokens : ℕ
  budgetPercent : ℕ
  toolOutputTokens : ℕ

structure CompactionEvent where
  before : ℕ
  after : ℕ

/-- The engine; the active session goes by its stored name. -/
structure FlatSession where
  session : List Message
  activeName : String
  sanitized : Sanitized activeName
  directory : Directory
  /-- The file that keeps the name of the active session. -/
  cursor : Option String
  ctx : ContextConfig
  observedTokens : Option ℕ

/-- Keep the head and the tail of an oversized output. -/
def truncateToolOutput (content : String) (maxTokens : ℕ) : String :=
  if estimateTokens content ≤ maxTokens then content
  else
    let keep := maxTokens * 4 / 2
    let head := Text.leading content keep
    let tail := Text.trailing content keep
    let omitted := estimateTokensFromChars
      (content.utf8ByteSize - tail.utf8ByteSize - head.utf8ByteSize)
    head ++ "\n... [~" ++ toString omitted ++ " tokens truncated] ...\n" ++ tail

def charCount (messages : List Message) : ℕ := (messages.map Message.charCount).sum

/-- `Session::load`: a file that is not there is an empty session. -/
def Directory.load (directory : Directory) (fileName : String) :
    Except String (List Message) :=
  match directory.find? fileName with
  | none => .ok []
  | some file => file.session

namespace FlatSession

variable (engine : FlatSession)

def tokenEstimate (systemPromptChars : ℕ) : ℕ :=
  estimateTokensFromChars (systemPromptChars + charCount engine.session)

def currentTokens : ℕ :=
  max (engine.tokenEstimate 0) (engine.observedTokens.getD 0)

def budget : ℕ := engine.ctx.maxTokens * engine.ctx.budgetPercent / 100

/-- In memory when active, otherwise from its file; an unreadable file is an empty
session. -/
def sessionMessages (name : String) : List Message :=
  if name = engine.activeName then engine.session
  else match engine.directory.load (sessionFileName name) with
    | .ok messages => messages
    | .error _ => []

/-- What the engine keeps of a message. -/
def intake (ctx : ContextConfig) : Message → Message
  | .tool callId content => .tool callId (truncateToolOutput content ctx.toolOutputTokens)
  | message => message

def pushMessage (message : Message) : FlatSession :=
  { engine with session := engine.session ++ [intake engine.ctx message] }

def observeTokens (promptTokens : ℕ) : FlatSession :=
  { engine with observedTokens := some promptTokens }

/-- Replace the session by its summary; the summarizer may fail. -/
def doCompact (summary : Except String String) :
    Except String (Option CompactionEvent) × FlatSession :=
  if engine.session.length < 2 then (.ok none, engine)
  else match summary with
    | .error error => (.error error, engine)
    | .ok summary =>
        let compacted :=
          { engine with session := [.system summary], observedTokens := none }
        (.ok (some ⟨engine.currentTokens, compacted.tokenEstimate 0⟩), compacted)

def compactIfUrgent (summary : Except String String) :
    Except String (Option CompactionEvent) × FlatSession :=
  if engine.currentTokens ≤ engine.budget ∨ engine.session.length < 2 then
    (.ok none, engine)
  else engine.doCompact summary

def assemble (systemPrompt : String) : List Message :=
  .system systemPrompt :: engine.session

def save : FlatSession :=
  { engine with
    directory := engine.directory.write
      ⟨sessionFileName engine.activeName, .ok engine.session⟩ }

/-- Save the active session and load the named one, unless it is the active one. -/
def switchSession (name : String) : Except String Unit × FlatSession :=
  if sanitizeName name = engine.activeName then (.ok (), engine)
  else
    match engine.save.directory.load (sessionFileName (sanitizeName name)) with
    | .error error => (.error error, engine.save)
    | .ok session =>
        (.ok (), { engine.save with
          session
          activeName := sanitizeName name
          sanitized := sanitized_sanitizeName name
          cursor := some (sanitizeName name)
          observedTokens := none })

/-! ### Listings -/

/-- The active session as it is listed. -/
def activeInfo (name : String) : SessionInfo :=
  ⟨name, engine.session.length, engine.tokenEstimate 0⟩

/-- How a file is listed, if at all. -/
def fileInfo (file : SessionFile) : Option SessionInfo :=
  if (splitFileName file.fileName).2 ≠ some "json" then none
  else
    let name := desanitizeName (splitFileName file.fileName).1
    if name = engine.activeName then some (engine.activeInfo name)
    else match file.session with
      | .ok messages =>
          some ⟨name, messages.length, estimateTokensFromChars (charCount messages)⟩
      | .error _ => none

def listSessions : List SessionInfo :=
  let sessions := engine.directory.files.filterMap engine.fileInfo
  let sessions :=
    if sessions.any (·.name = engine.activeName) then sessions
    else sessions ++ [engine.activeInfo engine.activeName]
  sessions.mergeSort fun first second => first.name ≤ second.name

/-- The length of each listed session that is not empty. -/
def latestPositions : SortedMap String ℕ :=
  engine.listSessions.foldl (fun out info =>
    let length := (engine.sessionMessages info.name).length
    if 0 < length then out.insert info.name length else out) .empty

/-- The tokens of each listed session from its watermark on. -/
def pendingDistillTokens (since : SortedMap String ℕ) : SortedMap String ℕ :=
  engine.listSessions.foldl (fun out info =>
    let after := (since.find? info.name).getD 0
    let tokens := estimateTokensFromChars
      (charCount ((engine.sessionMessages info.name).drop after))
    if 0 < tokens then out.insert info.name tokens else out) .empty

def transcriptSince (session : String) (after maxTokens : ℕ) : List Message :=
  clampSpan Message.tokenEstimate maxTokens ((engine.sessionMessages session).drop after)

end FlatSession

end Kitaebot.Context
