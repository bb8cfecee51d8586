import Kitaebot.Lcm.Externalize

/-!
# References to externalized payloads

A reference names a file id and a path.  File ids are made from the content and
`large_files` keeps the first row of an id, while lookups are scoped by
conversation: a payload that was stored before, in another session or under
another path, leaves a reference that its own session cannot follow.
-/

namespace Kitaebot.Lcm

open OrderedTable

/-! ## Lookups -/

/-- The row of a file id in a conversation. -/
def findLargeFile (db : Db) (conversation : ConversationId) (id : FileId) :
    Option LargeFile :=
  db.largeFiles.find? fun file =>
    file.row.fileId == id && file.conversationId == conversation

def fileDescription (createdAt : FileId → String) (file : LargeFile) : String :=
  "file_id: " ++ file.row.fileId ++ "\npath: " ++ file.row.path ++
    "\nmime_type: " ++ file.row.mimeType ++ "\nbyte_size: " ++
    toString file.row.byteSize ++ "\ntoken_count: " ++
    toString file.row.tokenCount ++ "\nfirst_seen_message_id: " ++
    toString file.firstSeenMessageId ++ "\ncreated_at: " ++
    createdAt file.row.fileId ++ "\n\nexploration_summary:\n" ++
    file.row.explorationSummary

def describeFile (createdAt : FileId → String) (db : Db)
    (conversation : ConversationId) (id : FileId) : String :=
  match findLargeFile db conversation id with
  | none => "No file with id " ++ reprStr id ++ " in the active session."
  | some file => fileDescription createdAt file

inductive ToolError where
  | precondition (text : String)
  | io (operation path : String)
  deriving DecidableEq, Repr

def snippetChars : ℕ := 200

/-- One line of a hit, cut to a length. -/
def snippet (line : String) : String :=
  let cleaned := line.toList.map fun symbol => if symbol = '\n' then ' ' else symbol
  if cleaned.length ≤ snippetChars then String.ofList cleaned
  else String.ofList (cleaned.take snippetChars) ++ "..."

def formatHit (id : FileId) (hit : ℕ × String) : String :=
  "[file_id=" ++ id ++ " line=" ++ toString hit.1 ++ "] " ++ snippet hit.2

/-- The file ids of a conversation, ordered by creation time and id. -/
def grepTargets (createdAt : FileId → String) (db : Db)
    (conversation : ConversationId) : List FileId :=
  ((db.largeFiles.filter (·.conversationId == conversation)).map
    (·.row.fileId)).insertionSort fun left right =>
      createdAt left < createdAt right ∨
        (createdAt left = createdAt right ∧ ¬ right < left)

/-- Search the payloads of some files; `search` gives the numbered lines of a
text that match the pattern. -/
def grepLoop (isWord : Char → Bool) (search : String → List (ℕ × String))
    (payloads : FileId → Option String) (limit : ℕ) :
    List FileId → List String → Except ToolError (List String)
  | [], hits => .ok hits
  | id :: ids, hits =>
      if limit ≤ hits.length then .ok hits
      else if (extractFileIds isWord id).head? ≠ some id then
        .error (.precondition
          ("lcm large_files row has unsafe file id " ++ reprStr id))
      else
        match payloads id with
        | none => .error (.io "search" (payloadPath id))
        | some payload =>
            grepLoop isWord search payloads limit ids (hits ++
              ((search payload).map (formatHit id)).take (limit - hits.length))

def grepFiles (isWord : Char → Bool) (createdAt : FileId → String)
    (search : String → List (ℕ × String)) (store : Store)
    (conversation : ConversationId) (limit : ℕ) :
    Except ToolError (List String) :=
  grepLoop isWord search store.payloads limit
    (grepTargets createdAt store.db conversation) []

/-- The lines of a file a search finds. -/
def fileHits (search : String → List (ℕ × String))
    (payloads : FileId → Option String) (id : FileId) : List String :=
  (((payloads id).map search).getD []).map (formatHit id)

/-- With room for every hit, all files are searched. -/
theorem grepLoop_eq {isWord : Char → Bool} {search : String → List (ℕ × String)}
    {payloads : FileId → Option String} {limit : ℕ} {ids : List FileId}
    (hids : ∀ id ∈ ids, (extractFileIds isWord id).head? = some id ∧
      (payloads id).isSome = true)
    {hits : List String}
    (hlimit : hits.length + (ids.flatMap (fileHits search payloads)).length <
      limit) :
    grepLoop isWord search payloads limit ids hits =
      .ok (hits ++ ids.flatMap (fileHits search payloads)) := by
  induction ids generalizing hits with
  | nil => rw [List.flatMap_nil, List.append_nil, grepLoop]
  | cons id ids ih =>
      rw [List.forall_mem_cons] at hids
      obtain ⟨⟨hsafe, hstored⟩, hrest⟩ := hids
      obtain ⟨payload, hpayload⟩ := Option.isSome_iff_exists.1 hstored
      have hfile : fileHits search payloads id =
          (search payload).map (formatHit id) := by
        rw [fileHits, hpayload]
        rfl
      rw [List.flatMap_cons, List.length_append, hfile] at hlimit
      have htake : ((search payload).map (formatHit id)).take
          (limit - hits.length) = (search payload).map (formatHit id) :=
        List.take_of_length_le (by omega)
      rw [grepLoop, if_neg (by omega), if_neg (not_not.2 hsafe), hpayload]
      simp only [htake]
      rw [ih hrest (by rw [List.length_append]; omega), List.flatMap_cons, hfile,
        List.append_assoc]

/-! ## References -/

/-- A reference the externalizer wrote into a message. -/
structure Reference where
  messageId : MessageId
  fileId : FileId
  path : String
  deriving DecidableEq, Repr

/-- A store and the references written so far. -/
structure World where
  store : Store
  written : List Reference

def World.empty : World where
  store := Store.empty
  written := []

/-- The session finds the file of a reference, with the path it names. -/
structure Resolves (isWord : Char → Bool) (store : Store)
    (conversation : ConversationId) (reference : Reference) : Prop where
  described : ∃ file ∈ store.db.largeFiles,
    file.conversationId = conversation ∧ file.row.fileId = reference.fileId ∧
      file.row.path = reference.path ∧ ∀ createdAt,
        describeFile createdAt store.db conversation reference.fileId =
          fileDescription createdAt file
  searched : ∃ payload, store.payloads reference.fileId = some payload ∧
    ∀ createdAt (search : String → List (ℕ × String)), ∀ hit ∈ search payload,
      ∃ limit hits, grepFiles isWord createdAt search store conversation limit =
        .ok hits ∧ formatHit reference.fileId hit ∈ hits

/-- The references of every stored message resolve in its conversation. -/
def Resolved (isWord : Char → Bool) (world : World) : Prop :=
  ∀ row ∈ world.store.db.messages, ∀ reference ∈ world.written,
    reference.messageId = row.messageId →
      Resolves isWord world.store row.conversationId reference

section Steps

variable (sha256 : List UInt8 → List UInt8) (jsonPath : String → Option String)
  (text : PayloadText) (cfg : IngestConfig)

/-- The reference an event writes. -/
def writes (store : Store) : StoreEvent → List Reference
  | .push conversation message explored _ =>
      match (interceptLarge sha256 jsonPath text cfg store.db conversation
        message explored).2 with
      | some row =>
          [⟨nextRowid MessageRow.messageId store.db.messages, row.fileId, row.path⟩]
      | none => []
  | _ => []

def worldStep (world : World) (event : StoreEvent) : World where
  store := storeStep sha256 jsonPath text cfg world.store event
  written := world.written ++ writes sha256 jsonPath text cfg world.store event

/-- A payload too large for its message was not stored before, or in the same
conversation under the same path. -/
def FirstSeenHere (world : World) : StoreEvent → Prop
  | .push conversation message _ _ =>
      ∀ payload ∈ oversized jsonPath cfg world.store.db conversation message,
        ∀ file ∈ world.store.db.largeFiles,
          file.row.fileId = fileId sha256 payload.1 →
            file.conversationId = conversation ∧ file.row.path =
              payload.2.getD (payloadPath (fileId sha256 payload.1))
  | _ => True

instance (world : World) :
    (event : StoreEvent) → Decidable (FirstSeenHere sha256 jsonPath cfg world event)
  | .push conversation message _ _ =>
      inferInstanceAs (Decidable (∀ payload ∈
        oversized jsonPath cfg world.store.db conversation message,
        ∀ file ∈ world.store.db.largeFiles,
          file.row.fileId = fileId sha256 payload.1 →
            file.conversationId = conversation ∧ file.row.path =
              payload.2.getD (payloadPath (fileId sha256 payload.1))))
  | .failedPush _ => inferInstanceAs (Decidable True)
  | .compact _ _ _ => inferInstanceAs (Decidable True)
  | .clear _ => inferInstanceAs (Decidable True)
  | .openSession _ _ => inferInstanceAs (Decidable True)

/-! ## The files of a store -/

/-- An event that stores no payload row. -/
structure KeepsFiles (before after : Db) : Prop where
  consistent : after.Consistent
  files : after.largeFiles = before.largeFiles
  messages : before.messages <+: after.messages

theorem keepsFiles_compact {db : Db} (hdb : db.Consistent)
    (conversation : ConversationId) (cfg : LcmConfig)
    (outcomes : List EscalationOutcome) :
    KeepsFiles db (step sha256 db (.compact conversation cfg outcomes)) := by
  apply runCompaction_preserves (P := KeepsFiles db) (Q := fun _ => True) sha256
    cfg (fun _ hafter => hafter.consistent) _ _ outcomes
    ⟨hdb, rfl, List.prefix_refl _⟩ (fun _ _ => trivial)
  · intro after group row hafter hgroup _ _ hfresh
    exact ⟨consistent_leafWrite hafter.consistent hgroup hfresh, hafter.files,
      hafter.messages⟩
  · intro after chunk row hafter hchunk _ hfresh
    exact ⟨consistent_condensedWrite hafter.consistent hchunk hfresh,
      hafter.files, hafter.messages⟩

theorem keepsFiles_openSession {db : Db} (hdb : db.Consistent)
    (name now : String) :
    KeepsFiles db (step sha256 db (.openSession name now)) := by
  apply openSession_preserves (P := KeepsFiles db) _ _
    ⟨hdb, rfl, List.prefix_refl _⟩
  · intro after conversations hafter
    exact ⟨consistent_conversations hafter.consistent conversations,
      hafter.files, hafter.messages⟩
  · intro after conversation callId now hafter
    exact ⟨consistent_push conversation _ none now hafter.consistent,
      hafter.files, hafter.messages.trans (List.prefix_append _ _)⟩

/-- A row holds a file id, and its payload is stored. -/
structure Kept (payloads : FileId → Option String) (file : LargeFile) : Prop where
  addressed : ∃ content, file.row.fileId = fileId sha256 content
  stored : (payloads file.row.fileId).isSome = true

/-- A message is stored in a conversation that has the file of the reference. -/
def Filed (store : Store) (reference : Reference) : Prop :=
  ∃ row ∈ store.db.messages, row.messageId = reference.messageId ∧
    ∃ file ∈ store.db.largeFiles, file.conversationId = row.conversationId ∧
      file.row.fileId = reference.fileId ∧ file.row.path = reference.path

structure FileInvariant (world : World) : Prop where
  consistent : world.store.db.Consistent
  ids : (world.store.db.largeFiles.map (·.row.fileId)).Nodup
  kept : ∀ file ∈ world.store.db.largeFiles, Kept sha256 world.store.payloads file
  filed : ∀ reference ∈ world.written, Filed world.store reference

theorem fileInvariant_empty : FileInvariant sha256 World.empty where
  consistent := Db.consistent_empty
  ids := List.nodup_nil
  kept := by
    intro file hfile
    cases hfile
  filed := by
    intro reference hreference
    cases hreference

theorem Kept.writePayload {payloads : FileId → Option String} {file : LargeFile}
    (hfile : Kept sha256 payloads file) (id : FileId) (stored : String) :
    Kept sha256 (Function.update payloads id (some stored)) file where
  addressed := hfile.addressed
  stored := by
    by_cases hid : file.row.fileId = id
    · rw [hid, Function.update_self]
      rfl
    · rw [Function.update_of_ne hid]
      exact hfile.stored

/-- The lookups of a session find a filed reference. -/
theorem FileInvariant.resolves {isWord : Char → Bool}
    (hwords : AsciiWords isWord) {world : World}
    (hworld : FileInvariant sha256 world) {conversation : ConversationId}
    {reference : Reference} {file : LargeFile}
    (hfile : file ∈ world.store.db.largeFiles)
    (hconversation : file.conversationId = conversation)
    (hid : file.row.fileId = reference.fileId)
    (hpath : file.row.path = reference.path) :
    Resolves isWord world.store conversation reference := by
  have hfind : findLargeFile world.store.db conversation reference.fileId =
      some file := by
    have hunique : ∀ other ∈ world.store.db.largeFiles,
        other.row.fileId = reference.fileId → other = file := by
      intro other hother hotherId
      exact List.inj_on_of_nodup_map hworld.ids hother hfile
        (hotherId.trans hid.symm)
    rw [findLargeFile]
    cases hfound : world.store.db.largeFiles.find? (fun file =>
        file.row.fileId == reference.fileId &&
          file.conversationId == conversation) with
    | none =>
        have hnone := List.find?_eq_none.1 hfound file hfile
        simp [hid, hconversation] at hnone
    | some other =>
        have hmatches := List.find?_some hfound
        rw [Bool.and_eq_true] at hmatches
        rw [hunique other (List.mem_of_find?_eq_some hfound)
          (eq_of_beq hmatches.1)]
  have htargets : ∀ createdAt, reference.fileId ∈
      grepTargets createdAt world.store.db conversation := by
    intro createdAt
    rw [grepTargets, List.mem_insertionSort, List.mem_map]
    exact ⟨file, List.mem_filter.2 ⟨hfile, by simpa using hconversation⟩, hid⟩
  obtain ⟨payload, hpayload⟩ :=
    Option.isSome_iff_exists.1 (hworld.kept file hfile).stored
  rw [hid] at hpayload
  constructor
  · refine ⟨file, hfile, hconversation, hid, hpath, fun createdAt => ?_⟩
    rw [describeFile, hfind]
  · refine ⟨payload, hpayload, fun createdAt search hit hhit => ?_⟩
    have hids : ∀ id ∈ grepTargets createdAt world.store.db conversation,
        (extractFileIds isWord id).head? = some id ∧
          (world.store.payloads id).isSome = true := by
      intro id hmem
      rw [grepTargets, List.mem_insertionSort, List.mem_map] at hmem
      obtain ⟨other, hother, rfl⟩ := hmem
      have hkept := hworld.kept other (List.mem_filter.1 hother).1
      obtain ⟨content, hcontent⟩ := hkept.addressed
      refine ⟨?_, hkept.stored⟩
      rw [hcontent, extractFileIds_fileId hwords, List.head?_cons]
    refine ⟨_, _, grepLoop_eq hids (Nat.lt_succ_self _), ?_⟩
    rw [List.nil_append, List.mem_flatMap]
    refine ⟨reference.fileId, htargets createdAt, ?_⟩
    rw [fileHits, hpayload]
    exact List.mem_map.2 ⟨hit, hhit, rfl⟩

theorem FileInvariant.resolved {isWord : Char → Bool}
    (hwords : AsciiWords isWord) {world : World}
    (hworld : FileInvariant sha256 world) : Resolved isWord world := by
  intro row hrow reference hreference hid
  obtain ⟨owner, howner, hownerId, file, hfile, hconversation, hfileId, hpath⟩ :=
    hworld.filed reference hreference
  have hsame : owner = row :=
    List.inj_on_of_nodup_map hworld.consistent.messageIds howner hrow
      (hownerId.trans hid)
  rw [hsame] at hconversation
  exact hworld.resolves sha256 hwords hfile hconversation hfileId hpath

/-! ## Steps -/

theorem Filed.mono {before after : Store} {reference : Reference}
    (hmessages : before.db.messages <+: after.db.messages)
    (hfiles : before.db.largeFiles ⊆ after.db.largeFiles)
    (hfiled : Filed before reference) : Filed after reference := by
  obtain ⟨row, hrow, hid, file, hfile, hmatches⟩ := hfiled
  exact ⟨row, hmessages.subset hrow, hid, file, hfiles hfile, hmatches⟩

/-- An event that stores no payload row keeps the invariant. -/
theorem FileInvariant.keepsFiles {world : World}
    (hworld : FileInvariant sha256 world) {after : Db}
    (hkeeps : KeepsFiles world.store.db after) :
    FileInvariant sha256
      ⟨{ world.store with db := after }, world.written⟩ where
  consistent := hkeeps.consistent
  ids := by
    rw [hkeeps.files]
    exact hworld.ids
  kept := by
    rw [hkeeps.files]
    exact hworld.kept
  filed := by
    intro reference hreference
    apply (hworld.filed reference hreference).mono hkeeps.messages
    rw [hkeeps.files]
    exact List.Subset.refl _

theorem FileInvariant.writePayload {world : World}
    (hworld : FileInvariant sha256 world) (id : FileId) (stored : String) :
    FileInvariant sha256 ⟨world.store.writePayload id stored, world.written⟩ where
  consistent := hworld.consistent
  ids := hworld.ids
  kept := fun file hfile => (hworld.kept file hfile).writePayload sha256 id stored
  filed := hworld.filed

theorem keepsFiles_push {db : Db} (hdb : db.Consistent)
    (conversation : ConversationId) (message : Message) (now : String) :
    KeepsFiles db (pushMessageSync db conversation message none now) :=
  ⟨consistent_push conversation message none now hdb, rfl,
    List.prefix_append _ _⟩

/-- The row of a payload is the one stored before, or the one that is added. -/
theorem mem_insertLargeFile {conversation : ConversationId}
    {messageId : MessageId} {files : List LargeFile} {row : LargeFileRow}
    {file : LargeFile} :
    file ∈ insertLargeFile conversation messageId files (some row) ↔
      file ∈ files ∨ (∀ other ∈ files, other.row.fileId ≠ row.fileId) ∧
        file = ⟨row, conversation, messageId⟩ := by
  rw [insertLargeFile]
  split
  · next hany =>
      obtain ⟨other, hother, hid⟩ := List.any_eq_true.1 hany
      constructor
      · exact Or.inl
      · rintro (hfile | ⟨hnone, _⟩)
        · exact hfile
        · exact absurd (eq_of_beq hid) (hnone other hother)
  · next hany =>
      rw [List.mem_append, List.mem_singleton]
      have hnone : ∀ other ∈ files, other.row.fileId ≠ row.fileId := by
        intro other hother heq
        exact hany (List.any_eq_true.2 ⟨other, hother, beq_iff_eq.2 heq⟩)
      exact or_congr_right ⟨fun heq => ⟨hnone, heq⟩, And.right⟩

theorem nodup_insertLargeFile {conversation : ConversationId}
    {messageId : MessageId} {files : List LargeFile} {row : LargeFileRow}
    (hfiles : (files.map (·.row.fileId)).Nodup) :
    ((insertLargeFile conversation messageId files (some row)).map
      (·.row.fileId)).Nodup := by
  rw [insertLargeFile]
  split
  · exact hfiles
  · next hany =>
      rw [List.map_append, List.nodup_append]
      refine ⟨hfiles, List.nodup_singleton _, ?_⟩
      intro first hfirst second hsecond heq
      obtain ⟨other, hother, rfl⟩ := List.mem_map.1 hfirst
      rw [List.map_singleton, List.mem_singleton] at hsecond
      exact hany (List.any_eq_true.2
        ⟨other, hother, beq_iff_eq.2 (heq.trans hsecond)⟩)

/-- What a push of an oversized message does. -/
structure PushesPayload (world : World) (conversation : ConversationId)
    (content : String) (pathHint : Option String) (after : World) : Prop where
  step : ∃ stored row now, row.fileId = fileId sha256 content ∧
    row.path = pathHint.getD (payloadPath (fileId sha256 content)) ∧
    (∃ tokenCount summary next, Message.content stored = formatFileReference
      (fileId sha256 content) row.path tokenCount summary next) ∧
    after.store = { world.store.writePayload (fileId sha256 content)
        (text.normalizePayload content) with
      db := pushMessageSync world.store.db conversation stored (some row) now }
  written : after.written = world.written ++
    [⟨nextRowid MessageRow.messageId world.store.db.messages,
      fileId sha256 content,
      pathHint.getD (payloadPath (fileId sha256 content))⟩]

theorem externalize_reference (content : String) (pathHint : Option String)
    (summary : String) :
    ∃ tokenCount summary' next, (externalize sha256 text content pathHint
        summary).1 =
      formatFileReference (fileId sha256 content) (externalize sha256 text content
        pathHint summary).2.path tokenCount summary' next := by
  simp only [externalize]
  exact ⟨_, _, _, rfl⟩

theorem content_withContent {db : Db} {conversation : ConversationId}
    {message : Message} {payload : String × Option String}
    (hoversized : oversized jsonPath cfg db conversation message = some payload)
    (reference : String) :
    (withContent message reference).content = reference := by
  cases message with
  | user content => rfl
  | tool callId content => rfl
  | assistant content => cases hoversized
  | system content => cases hoversized
  | toolCalls content calls => cases hoversized

theorem worldStep_oversized {world : World} {conversation : ConversationId}
    {message : Message} {explored now content : String}
    {pathHint : Option String}
    (hoversized : oversized jsonPath cfg world.store.db conversation message =
      some (content, pathHint)) :
    PushesPayload sha256 text world conversation content pathHint
      (worldStep sha256 jsonPath text cfg world
        (.push conversation message explored now)) where
  step := by
    refine ⟨withContent message (externalize sha256 text content pathHint
        (payloadSummary text message content explored)).1,
      (externalize sha256 text content pathHint
        (payloadSummary text message content explored)).2, now, rfl, rfl, ?_, ?_⟩
    · rw [content_withContent jsonPath cfg hoversized]
      exact externalize_reference sha256 text content pathHint _
    · simp only [worldStep, storeStep, pushMessage, interceptLarge, hoversized,
        Store.db_writePayload]
  written := by
    simp only [worldStep, writes, interceptLarge, hoversized]
    rfl

theorem worldStep_below {world : World} {conversation : ConversationId}
    {message : Message} {explored now : String}
    (hoversized : oversized jsonPath cfg world.store.db conversation message =
      none) :
    worldStep sha256 jsonPath text cfg world
        (.push conversation message explored now) =
      ⟨{ world.store with
        db := pushMessageSync world.store.db conversation message none now },
        world.written⟩ := by
  simp only [worldStep, storeStep, pushMessage, writes, interceptLarge,
    hoversized, List.append_nil]

/-- A push of a payload that is new, or known here under its path, keeps the
invariant. -/
theorem PushesPayload.invariant {world after : World}
    {conversation : ConversationId} {content : String} {pathHint : Option String}
    (hpush : PushesPayload sha256 text world conversation content pathHint after)
    (hworld : FileInvariant sha256 world)
    (hseen : ∀ file ∈ world.store.db.largeFiles,
      file.row.fileId = fileId sha256 content →
        file.conversationId = conversation ∧
          file.row.path = pathHint.getD (payloadPath (fileId sha256 content))) :
    FileInvariant sha256 after := by
  obtain ⟨⟨stored, row, now, hid, hpath, _, hstore⟩, hwritten⟩ := hpush
  have hfiles : after.store.db.largeFiles = insertLargeFile conversation
      (nextRowid MessageRow.messageId world.store.db.messages)
      world.store.db.largeFiles (some row) := by
    rw [hstore]
    rfl
  have hmessages : after.store.db.messages = world.store.db.messages ++
      [pushedRow world.store.db conversation stored now] := by
    rw [hstore]
    rfl
  have hpayloads : after.store.payloads = Function.update world.store.payloads
      (fileId sha256 content) (some (text.normalizePayload content)) := by
    rw [hstore]
    rfl
  constructor
  · rw [hstore]
    exact consistent_push conversation stored (some row) now hworld.consistent
  · rw [hfiles]
    exact nodup_insertLargeFile hworld.ids
  · intro file hfile
    rw [hfiles, mem_insertLargeFile] at hfile
    rw [hpayloads]
    rcases hfile with hold | ⟨_, rfl⟩
    · exact (hworld.kept file hold).writePayload sha256 _ _
    · refine ⟨⟨content, hid⟩, ?_⟩
      rw [hid, Function.update_self]
      rfl
  · intro reference hreference
    rw [hwritten, List.mem_append, List.mem_singleton] at hreference
    rcases hreference with hold | rfl
    · apply (hworld.filed reference hold).mono
      · rw [hmessages]
        exact List.prefix_append _ _
      · intro file hfile
        rw [hfiles, mem_insertLargeFile]
        exact .inl hfile
    · refine ⟨pushedRow world.store.db conversation stored now, ?_, rfl, ?_⟩
      · rw [hmessages]
        exact List.mem_append_right _ (List.mem_singleton_self _)
      · by_cases hknown : ∃ file ∈ world.store.db.largeFiles,
            file.row.fileId = fileId sha256 content
        · obtain ⟨file, hfile, hfileId⟩ := hknown
          obtain ⟨hconversation, hfilePath⟩ := hseen file hfile hfileId
          refine ⟨file, ?_, hconversation, hfileId, hfilePath⟩
          rw [hfiles, mem_insertLargeFile]
          exact .inl hfile
        · refine ⟨⟨row, conversation,
            nextRowid MessageRow.messageId world.store.db.messages⟩, ?_, rfl, hid,
              hpath⟩
          rw [hfiles, mem_insertLargeFile]
          refine .inr ⟨?_, rfl⟩
          intro other hother heq
          exact hknown ⟨other, hother, heq.trans hid⟩

/-- If the new reference resolves, its payload was new, or known here under its
path. -/
theorem PushesPayload.seen {isWord : Char → Bool} {world after : World}
    {conversation : ConversationId} {content : String} {pathHint : Option String}
    (hpush : PushesPayload sha256 text world conversation content pathHint after)
    (hworld : FileInvariant sha256 world) (hafter : Resolved isWord after) :
    ∀ file ∈ world.store.db.largeFiles,
      file.row.fileId = fileId sha256 content →
        file.conversationId = conversation ∧
          file.row.path = pathHint.getD (payloadPath (fileId sha256 content)) := by
  intro file hfile hfileId
  obtain ⟨⟨stored, row, now, hid, hpath, _, hstore⟩, hwritten⟩ := hpush
  have hfiles : after.store.db.largeFiles = insertLargeFile conversation
      (nextRowid MessageRow.messageId world.store.db.messages)
      world.store.db.largeFiles (some row) := by
    rw [hstore]
    rfl
  have hrow : pushedRow world.store.db conversation stored now ∈
      after.store.db.messages := by
    rw [hstore]
    exact List.mem_append_right _ (List.mem_singleton_self _)
  have hreference := hafter _ hrow _ (by
    rw [hwritten]
    exact List.mem_append_right _ (List.mem_singleton_self _)) rfl
  obtain ⟨found, hfound, hconversation, hfoundId, hfoundPath, _⟩ :=
    hreference.described
  have hnodup : (after.store.db.largeFiles.map (·.row.fileId)).Nodup := by
    rw [hfiles]
    exact nodup_insertLargeFile hworld.ids
  have hold : file ∈ after.store.db.largeFiles := by
    rw [hfiles, mem_insertLargeFile]
    exact .inl hfile
  have hsame : file = found :=
    List.inj_on_of_nodup_map hnodup hold hfound (hfileId.trans hfoundId.symm)
  rw [hsame]
  exact ⟨hconversation, hfoundPath⟩

theorem fileInvariant_step (world : World) (event : StoreEvent)
    (hworld : FileInvariant sha256 world)
    (hseen : FirstSeenHere sha256 jsonPath cfg world event) :
    FileInvariant sha256 (worldStep sha256 jsonPath text cfg world event) := by
  have hwritten : world.written ++ [] = world.written := List.append_nil _
  cases event with
  | push conversation message explored now =>
      cases hoversized : oversized jsonPath cfg world.store.db conversation
          message with
      | none =>
          rw [worldStep_below sha256 jsonPath text cfg hoversized]
          exact hworld.keepsFiles sha256
            (keepsFiles_push hworld.consistent conversation message now)
      | some payload =>
          exact (worldStep_oversized sha256 jsonPath text cfg
            hoversized).invariant sha256 text hworld (hseen payload hoversized)
  | failedPush content =>
      simp only [worldStep, writes, hwritten]
      exact hworld.writePayload sha256 _ _
  | compact conversation cfg outcomes =>
      simp only [worldStep, writes, hwritten]
      exact hworld.keepsFiles sha256
        (keepsFiles_compact sha256 hworld.consistent conversation cfg outcomes)
  | clear conversation =>
      simp only [worldStep, writes, hwritten]
      exact hworld.keepsFiles sha256
        ⟨consistent_clear conversation hworld.consistent, rfl,
          List.prefix_refl _⟩
  | openSession name now =>
      simp only [worldStep, writes, hwritten]
      exact hworld.keepsFiles sha256
        (keepsFiles_openSession sha256 hworld.consistent name now)

theorem firstSeenHere_of_resolved {isWord : Char → Bool} (world : World)
    (event : StoreEvent) (hworld : FileInvariant sha256 world)
    (hafter : Resolved isWord
      (worldStep sha256 jsonPath text cfg world event)) :
    FirstSeenHere sha256 jsonPath cfg world event := by
  cases event with
  | push conversation message explored now =>
      intro payload hoversized
      exact (worldStep_oversized sha256 jsonPath text cfg hoversized).seen
        sha256 text hworld hafter
  | failedPush content => trivial
  | compact conversation cfg outcomes => trivial
  | clear conversation => trivial
  | openSession name now => trivial

/-- The references of every store of a run resolve exactly when every oversized
payload of the run is new, or known in its conversation under its path. -/
theorem references_resolve_iff {isWord : Char → Bool}
    (hwords : AsciiWords isWord) (events : List StoreEvent) :
    (∀ before, before <+: events → Resolved isWord
        (Run.run (worldStep sha256 jsonPath text cfg) World.empty before)) ↔
      Run.Meets (worldStep sha256 jsonPath text cfg)
        (FirstSeenHere sha256 jsonPath cfg) World.empty events :=
  Run.forall_prefix_iff_meets
    (fun _ hworld => hworld.resolved sha256 hwords)
    (fileInvariant_step sha256 jsonPath text cfg)
    (firstSeenHere_of_resolved sha256 jsonPath text cfg)
    (fileInvariant_empty sha256)

end Steps

/-! ### One payload in two sessions -/

def asciiWord (symbol : Char) : Bool := symbol.isAlphanum || symbol == '_'

theorem asciiWords_asciiWord : AsciiWords asciiWord := fun _ _ => rfl

def longPayload : String := String.ofList (List.replicate 44 'z')

def otherPayload : String := String.ofList (List.replicate 48 'z')

/-- SHA-256 on the two payloads. -/
def payloadSha256 (bytes : List UInt8) : List UInt8 :=
  if bytes = utf8Bytes longPayload then
    [132, 2, 82, 168, 86, 100, 241, 230, 3, 204, 105, 201, 113, 26, 81, 50, 202,
      231, 77, 133, 74, 13, 40, 37, 175, 110, 91, 161, 44, 127, 14, 71]
  else if bytes = utf8Bytes otherPayload then
    [173, 40, 125, 65, 57, 139, 43, 198, 170, 227, 67, 210, 71, 103, 189, 237,
      151, 149, 184, 130, 243, 130, 181, 171, 244, 128, 166, 252, 11, 189, 223,
      223]
  else []

/-- The same text arrives in the sessions `general` and `work`. -/
def sharedPayload : List StoreEvent :=
  [.openSession "general" "", .push 1 (.user longPayload) "" "",
    .openSession "work" "", .push 2 (.user longPayload) "" ""]

/-- Two texts, one of them pushed twice, each in one session. -/
def apartPayloads : List StoreEvent :=
  [.openSession "general" "", .push 1 (.user longPayload) "" "",
    .openSession "work" "", .push 2 (.user otherPayload) "" "",
    .push 1 (.user longPayload) "" ""]

theorem references_resolve_apart :
    Resolved asciiWord
      (Run.run (worldStep payloadSha256 (fun _ => none) plainText smallConfig)
        World.empty apartPayloads) :=
  (references_resolve_iff payloadSha256 (fun _ => none) plainText smallConfig
    asciiWords_asciiWord apartPayloads).2 (by decide +kernel) apartPayloads
    (List.prefix_refl _)

/-- The second session has a reference and no file. -/
theorem sharedPayload_unresolved :
    ¬ Resolved asciiWord
      (Run.run (worldStep payloadSha256 (fun _ => none) plainText smallConfig)
        World.empty sharedPayload) := by
  intro hresolved
  obtain ⟨row, hrow, reference, hreference, hid, htarget⟩ :
      ∃ row ∈ (Run.run (worldStep payloadSha256 (fun _ => none) plainText
          smallConfig) World.empty sharedPayload).store.db.messages,
        ∃ reference ∈ (Run.run (worldStep payloadSha256 (fun _ => none) plainText
          smallConfig) World.empty sharedPayload).written,
          reference.messageId = row.messageId ∧ row.conversationId = 2 := by
    decide
  obtain ⟨file, hfile, howner, _⟩ :=
    (hresolved row hrow reference hreference hid).described
  have hfirst : ∀ file ∈ (Run.run (worldStep payloadSha256 (fun _ => none)
      plainText smallConfig) World.empty sharedPayload).store.db.largeFiles,
      file.conversationId = 1 := by
    decide +kernel
  rw [hfirst file hfile, htarget] at howner
  cases howner

end Kitaebot.Lcm
