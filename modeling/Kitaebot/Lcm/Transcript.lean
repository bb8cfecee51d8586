import Kitaebot.Context.FlatSession
import Kitaebot.Lcm.CompactionTokens
import Kitaebot.Lcm.Repair

/-!
# Reading a transcript

`transcript_since` reads the stored messages of a session from a position on, up to a
number of tokens.  The store scans the counts for the first row that no longer fits,
then reads the rows below it; the flat engine takes messages while they fit.  Both
return the same page of the same messages.
-/

namespace Kitaebot.Lcm

open OrderedTable
open Context (takeSpan clampSpan sanitizeName FlatSession)

def i64Max : ℕ := 2 ^ 63 - 1

/-- `i64::try_from(position).unwrap_or(i64::MAX)`. -/
def i64OrMax (position : ℕ) : ℕ := if position ≤ i64Max then position else i64Max

/-- The seq of the first row that no longer fits, and whether one was kept. -/
def findCutoff (maxTokens : ℕ) : ℕ → Bool → List MessageRow → Option ℕ × Bool
  | _, kept, [] => (none, kept)
  | total, kept, row :: rows =>
      if kept ∧ maxTokens < total + row.tokenCount then (some row.seq, kept)
      else findCutoff maxTokens (total + row.tokenCount) true rows

section Db

variable (db : Db)

/-- The rows of a conversation from a seq on. -/
def pendingRows (conversation : ConversationId) (after : ℕ) : List MessageRow :=
  (db.conversationMessages conversation).filter fun row => decide (after ≤ row.seq)

/-- The stored messages from a position on, clamped. -/
def transcriptSinceSync (stem : String) (after maxTokens : ℕ) :
    Except EngineError (List Message) :=
  match db.conversations.find? (·.name == stem) with
  | none => .ok []
  | some conversation =>
      let pending := pendingRows db conversation.conversationId (i64OrMax after)
      let (cutoff, kept) := findCutoff maxTokens 0 false (orderBy MessageRow.seq pending)
      if kept then
        (orderBy MessageRow.seq (pending.filter fun row =>
          decide (row.seq < cutoff.getD i64Max))).mapM reconstructMessage
      else .ok []

def transcriptSince (session : String) (after maxTokens : ℕ) :
    Except EngineError (List Message) :=
  transcriptSinceSync db (sanitizeName session) after maxTokens

end Db

/-! ### What is stored -/

/-- A conversation reads back as a list of messages: dense positions, every row
readable and stored with the estimate of its message. -/
structure Transcribes (db : Db) (conversation : ConversationId) (messages : List Message) :
    Prop where
  seqs : (db.conversationMessages conversation).map MessageRow.seq =
    List.range messages.length
  read : (db.conversationMessages conversation).map reconstructMessage =
    messages.map Except.ok
  tokens : (db.conversationMessages conversation).map MessageRow.tokenCount =
    messages.map Message.tokenEstimate

/-- The session's messages; an unknown session has none. -/
def Holds (db : Db) (session : String) (messages : List Message) : Prop :=
  match db.conversations.find? (·.name == sanitizeName session) with
  | none => messages = []
  | some conversation => Transcribes db conversation.conversationId messages

section Stored

variable {db : Db} {conversation : ConversationId} {messages : List Message}

/-- A push adds its message to what its own conversation reads back as. -/
theorem Transcribes.push (htext : Transcribes db conversation messages) (target : ConversationId)
    (message : Message) (largeFile : Option LargeFileRow) (now : String) :
    Transcribes (pushMessageSync db target message largeFile now) conversation
      (messages ++ if target = conversation then [asStored message] else []) := by
  by_cases htarget : target = conversation
  · subst htarget
    rw [if_pos rfl]
    constructor
    · rw [conversationMessages_push, if_pos rfl, List.map_append, htext.seqs,
        List.length_append, List.length_singleton, List.range_succ]
      congr 1
      change [nextKey MessageRow.seq (db.conversationMessages target)] = _
      rw [nextKey_of_range _ htext.seqs]
    · rw [conversationMessages_push, if_pos rfl, List.map_append, htext.read,
        List.map_append, List.map_singleton, List.map_singleton, pushedRow,
        reconstructMessage_messageRow]
    · rw [conversationMessages_push, if_pos rfl, List.map_append, htext.tokens,
        List.map_append, List.map_singleton, List.map_singleton, tokenEstimate_asStored]
      rfl
  · rw [if_neg htarget, List.append_nil]
    constructor
    · rw [conversationMessages_push, if_neg htarget, List.append_nil, htext.seqs]
    · rw [conversationMessages_push, if_neg htarget, List.append_nil, htext.read]
    · rw [conversationMessages_push, if_neg htarget, List.append_nil, htext.tokens]

/-- Every conversation reads back. -/
def AllTranscribed (db : Db) : Prop := ∀ conversation, ∃ messages, Transcribes db conversation messages

theorem AllTranscribed.of_messages {after : Db} (hdb : AllTranscribed db)
    (hmessages : after.messages = db.messages) : AllTranscribed after := by
  intro conversation
  obtain ⟨messages, htext⟩ := hdb conversation
  have hlog : after.conversationMessages conversation =
      db.conversationMessages conversation := by
    rw [Db.conversationMessages, hmessages, Db.conversationMessages]
  refine ⟨messages, ?_, ?_, ?_⟩
  · rw [hlog, htext.seqs]
  · rw [hlog, htext.read]
  · rw [hlog, htext.tokens]

theorem AllTranscribed.push (hdb : AllTranscribed db) (target : ConversationId) (message : Message)
    (largeFile : Option LargeFileRow) (now : String) :
    AllTranscribed (pushMessageSync db target message largeFile now) := by
  intro conversation
  obtain ⟨messages, htext⟩ := hdb conversation
  exact ⟨_, htext.push target message largeFile now⟩

theorem messages_runCompaction (sha256 : List UInt8 → List UInt8) (hdb : db.Consistent)
    (conversation : ConversationId) (cfg : LcmConfig) (outcomes : List EscalationOutcome) :
    (runCompaction sha256 db conversation cfg outcomes).1.messages = db.messages := by
  have hkeeps : (runCompaction sha256 db conversation cfg outcomes).1.Consistent ∧
      (runCompaction sha256 db conversation cfg outcomes).1.messages = db.messages :=
    runCompaction_preserves (P := fun after => after.Consistent ∧
      after.messages = db.messages) (Q := fun _ => True) sha256 cfg
    (fun _ hafter => hafter.1)
    (fun _ _ _ hafter hgroup _ _ hfresh =>
      ⟨consistent_leafWrite hafter.1 hgroup hfresh, hafter.2⟩)
    (fun _ _ _ hafter hchunk _ hfresh =>
      ⟨consistent_condensedWrite hafter.1 hchunk hfresh, hafter.2⟩)
    outcomes ⟨hdb, rfl⟩ (fun _ _ => trivial)
  exact hkeeps.2

theorem allTranscribed_step (sha256 : List UInt8 → List UInt8) (db : Db) (event : Event)
    (hdb : db.Consistent ∧ AllTranscribed db) :
    (step sha256 db event).Consistent ∧ AllTranscribed (step sha256 db event) := by
  refine ⟨consistent_step sha256 db event hdb.1, ?_⟩
  cases event with
  | push conversation message largeFile now => exact hdb.2.push conversation message largeFile now
  | compact conversation cfg outcomes =>
      exact hdb.2.of_messages (messages_runCompaction sha256 hdb.1 conversation cfg outcomes)
  | clear conversation => exact hdb.2.of_messages rfl
  | openSession name now =>
      exact openSession_preserves (P := AllTranscribed)
        (fun _ _ hafter => hafter.of_messages rfl)
        (fun _ conversation _ now hafter => hafter.push conversation _ none now) hdb.2 name now

theorem allTranscribed_history (sha256 : List UInt8 → List UInt8) (events : List Event) :
    AllTranscribed (history sha256 events) := by
  have hstart : Db.empty.Consistent ∧ AllTranscribed Db.empty :=
    ⟨Db.consistent_empty, fun _ => ⟨[], rfl, rfl, rfl⟩⟩
  exact (Run.invariant_run (allTranscribed_step sha256) hstart events).2

end Stored

/-! ### The two passes -/

section Passes

variable {maxTokens bound : ℕ}

/-- A cutoff is the seq of a row. -/
theorem cutoff_mem (maxTokens total : ℕ) (kept : Bool) (rows : List MessageRow) :
    ∀ seq, (findCutoff maxTokens total kept rows).1 = some seq →
      ∃ row ∈ rows, row.seq = seq := by
  induction rows generalizing total kept with
  | nil => exact fun seq hseq => by cases hseq
  | cons row rows ih =>
      intro seq hseq
      rw [findCutoff] at hseq
      split_ifs at hseq with hover
      · exact ⟨row, List.mem_cons_self, Option.some.inj hseq⟩
      · obtain ⟨other, hother, hsame⟩ := ih _ _ seq hseq
        exact ⟨other, List.mem_cons_of_mem row hother, hsame⟩

/-- Something is kept when there is something. -/
theorem kept_findCutoff (maxTokens total : ℕ) (kept : Bool) (rows : List MessageRow) :
    (findCutoff maxTokens total kept rows).2 = (kept || !rows.isEmpty) := by
  induction rows generalizing total kept with
  | nil => simp [findCutoff]
  | cons row rows ih =>
      rw [findCutoff]
      split_ifs with hover
      · simp [hover.1]
      · rw [ih]
        simp

/-- The rows below the cutoff are those taken while they fit. -/
theorem filter_findCutoff {rows : List MessageRow} (hrows : Increasing MessageRow.seq rows)
    (hbound : ∀ row ∈ rows, row.seq < bound) (total : ℕ) (kept : Bool) :
    (rows.filter fun row => decide
      (row.seq < (findCutoff maxTokens total kept rows).1.getD bound)) =
        takeSpan MessageRow.tokenCount maxTokens total kept rows := by
  induction rows generalizing total kept with
  | nil => rfl
  | cons row rows ih =>
      obtain ⟨hfirst, hrest⟩ := List.pairwise_cons.1 hrows
      obtain ⟨hrow, hbounds⟩ := List.forall_mem_cons.1 hbound
      rw [findCutoff, takeSpan]
      split_ifs with hover
      · -- the cutoff is the first row: none is below it
        rw [List.filter_eq_nil_iff]
        intro other hother
        rcases List.mem_cons.1 hother with rfl | hlater
        · simp
        · have hlt := hfirst other hlater
          simp only [Option.getD_some, decide_eq_true_eq]
          omega
      · have hbelow : row.seq <
            (findCutoff maxTokens (total + row.tokenCount) true rows).1.getD bound := by
          have hfound := cutoff_mem maxTokens (total + row.tokenCount) true rows
          cases hcutoff : (findCutoff maxTokens (total + row.tokenCount) true rows).1 with
          | none => exact hrow
          | some seq =>
              obtain ⟨other, hother, rfl⟩ := hfound seq hcutoff
              exact hfirst other hother
        rw [List.filter_cons_of_pos (by simpa using hbelow), ih hrest hbounds]

theorem filter_range' {Row : Type} {key : Row → ℕ} {rows : List Row} {start count after : ℕ}
    (hrows : rows.map key = List.range' start count) :
    (rows.filter fun row => decide (after ≤ key row)) = rows.drop (after - start) := by
  induction rows generalizing start count with
  | nil => rw [List.filter_nil, List.drop_nil]
  | cons row rows ih =>
      cases count with
      | zero => cases hrows
      | succ count =>
          rw [List.range'_succ, List.map_cons, List.cons.injEq] at hrows
          by_cases hbelow : start < after
          · have hdrop : after - start = (after - (start + 1)) + 1 := by omega
            have hnot : ¬ after ≤ key row := by omega
            rw [List.filter_cons_of_neg (by simpa using hnot), hdrop, List.drop_succ_cons]
            exact ih hrows.2
          · have hdrop : after - start = 0 := by omega
            have hnext : after - (start + 1) = 0 := by omega
            have hkeep : after ≤ key row := by omega
            rw [List.filter_cons_of_pos (by simpa using hkeep), ih hrows.2, hdrop, hnext,
              List.drop_zero, List.drop_zero]

theorem mapM_of_map_ok {Source Target Failure : Type} {f : Source → Except Failure Target}
    {sources : List Source} {targets : List Target}
    (hmap : sources.map f = targets.map Except.ok) : sources.mapM f = .ok targets := by
  induction sources generalizing targets with
  | nil =>
      rw [List.map_nil, eq_comm, List.map_eq_nil_iff] at hmap
      rw [hmap]
      rfl
  | cons source sources ih =>
      cases targets with
      | nil => cases hmap
      | cons target targets =>
          rw [List.map_cons, List.map_cons, List.cons.injEq] at hmap
          rw [List.mapM_cons, hmap.1, ih hmap.2]
          rfl

theorem orderBy_self {rows : List MessageRow} (hrows : Increasing MessageRow.seq rows) :
    orderBy MessageRow.seq rows = rows :=
  orderBy_eq hrows (List.Perm.refl rows)

variable {db : Db} {conversation : ConversationId} {messages : List Message}

theorem Transcribes.increasing (htext : Transcribes db conversation messages) :
    Increasing MessageRow.seq (db.conversationMessages conversation) := by
  rw [Increasing, ← List.pairwise_map, htext.seqs]
  exact List.pairwise_lt_range

theorem Transcribes.pendingRows (htext : Transcribes db conversation messages)
    (after : ℕ) : pendingRows db conversation after =
      (db.conversationMessages conversation).drop after := by
  have hrange := htext.seqs
  rw [List.range_eq_range'] at hrange
  exact filter_range' hrange

/-- The clamp on positions costs nothing below so many messages. -/
theorem drop_i64OrMax {Item : Type} {items : List Item} (hsize : items.length ≤ i64Max)
    (after : ℕ) : items.drop (i64OrMax after) = items.drop after := by
  rw [i64OrMax]
  split_ifs with hafter
  · rfl
  · rw [List.drop_eq_nil_of_le hsize, List.drop_eq_nil_of_le (by omega)]

/-- The store returns the messages from the position on, clamped. -/
theorem transcriptSince_eq {session : String} (hholds : Holds db session messages)
    (hsize : messages.length ≤ i64Max) (after maxTokens : ℕ) :
    transcriptSince db session after maxTokens =
      .ok (clampSpan Message.tokenEstimate maxTokens (messages.drop after)) := by
  rw [Holds] at hholds
  rw [transcriptSince, transcriptSinceSync]
  cases hfind : db.conversations.find? (·.name == sanitizeName session) with
  | none =>
      rw [hfind] at hholds
      rw [show messages = [] from hholds, List.drop_nil]
      rfl
  | some conversation =>
      rw [hfind] at hholds
      have htext : Transcribes db conversation.conversationId messages := hholds
      have hlength : (db.conversationMessages conversation.conversationId).length =
          messages.length := by
        rw [← List.length_map MessageRow.seq, htext.seqs, List.length_range]
      have hpending : pendingRows db conversation.conversationId (i64OrMax after) =
          (db.conversationMessages conversation.conversationId).drop after := by
        rw [htext.pendingRows, drop_i64OrMax (hlength ▸ hsize)]
      generalize hrows : (db.conversationMessages conversation.conversationId).drop after =
        rows at hpending
      have hincreasing : Increasing MessageRow.seq rows := by
        rw [← hrows]
        exact List.Pairwise.sublist (List.drop_sublist _ _) htext.increasing
      have hread : rows.map reconstructMessage = (messages.drop after).map Except.ok := by
        rw [← hrows, List.map_drop, List.map_drop, htext.read]
      have htokens : rows.map MessageRow.tokenCount =
          (messages.drop after).map Message.tokenEstimate := by
        rw [← hrows, List.map_drop, List.map_drop, htext.tokens]
      have hbound : ∀ row ∈ rows, row.seq < i64Max := by
        intro row hrow
        have hmem : row ∈ db.conversationMessages conversation.conversationId :=
          List.mem_of_mem_drop (hrows ▸ hrow)
        have hseq : row.seq ∈ List.range messages.length :=
          htext.seqs ▸ List.mem_map.2 ⟨row, hmem, rfl⟩
        exact lt_of_lt_of_le (List.mem_range.1 hseq) hsize
      simp only [hpending, orderBy_self hincreasing, kept_findCutoff, Bool.false_or]
      cases hempty : rows with
      | nil =>
          rw [hempty, List.map_nil, eq_comm, List.map_eq_nil_iff] at hread
          rw [hread]
          rfl
      | cons row rest =>
          rw [← hempty, if_pos (by rw [hempty]; rfl), filter_findCutoff hincreasing hbound,
            orderBy_self]
          · apply mapM_of_map_ok
            rw [clampSpan, Context.takeSpan_eq_take MessageRow.tokenCount,
              Context.takeSpan_eq_take Message.tokenEstimate, htokens, List.map_take,
              List.map_take, hread]
          · rw [Context.takeSpan_eq_take]
            exact List.Pairwise.sublist (List.take_sublist _ _) hincreasing

end Passes

/-! ### Both engines -/

/-- Every stored session has its messages. -/
theorem exists_holds (sha256 : List UInt8 → List UInt8) (events : List Event)
    (session : String) : ∃ messages, Holds (history sha256 events) session messages := by
  simp only [Holds]
  cases (history sha256 events).conversations.find? (·.name == sanitizeName session) with
  | none => exact ⟨[], rfl⟩
  | some conversation =>
      exact allTranscribed_history sha256 events conversation.conversationId

/-- What a session's reader gets: each call returns a page, empty when nothing is
pending, and calls from where the last page ended see every message once. -/
structure Pages (messages : List Message)
    (fetch : ℕ → ℕ → Except EngineError (List Message)) : Prop where
  page : ∀ after maxTokens, ∃ page, fetch after maxTokens = .ok page ∧
    Paging.IsPage Message.tokenEstimate maxTokens (messages.drop after) page ∧
    (page = [] ↔ messages.drop after = [])
  visits : ∀ limits after, ∃ seen, Paging.visits fetch limits after = .ok seen ∧
    seen <+: messages.drop after ∧
    (messages.length ≤ after + limits.length → seen = messages.drop after)

theorem pages_of_clampSpan {messages : List Message}
    {fetch : ℕ → ℕ → Except EngineError (List Message)}
    (hfetch : ∀ after maxTokens, fetch after maxTokens =
      .ok (clampSpan Message.tokenEstimate maxTokens (messages.drop after))) :
    Pages messages fetch := by
  have hpage : ∀ after maxTokens, ∃ page, fetch after maxTokens = .ok page ∧
      Paging.IsPage Message.tokenEstimate maxTokens (messages.drop after) page :=
    fun after maxTokens => ⟨_, hfetch after maxTokens, Context.isPage_clampSpan _ _ _⟩
  constructor
  · intro after maxTokens
    obtain ⟨page, hok, hisPage⟩ := hpage after maxTokens
    exact ⟨page, hok, hisPage, hisPage.eq_nil_iff⟩
  · exact Paging.visits_spec hpage

theorem Transcribes.length_le {db : Db} {conversation : ConversationId}
    {messages : List Message} (htext : Transcribes db conversation messages) :
    messages.length ≤ db.messages.length := by
  have hlength := congrArg List.length htext.seqs
  rw [List.length_map, List.length_range] at hlength
  rw [← hlength]
  exact List.length_filter_le _ _

theorem Holds.length_le {db : Db} {session : String} {messages : List Message}
    (hholds : Holds db session messages) : messages.length ≤ db.messages.length := by
  rw [Holds] at hholds
  split at hholds
  · rw [hholds]
    exact Nat.zero_le _
  · exact hholds.length_le

/-- Both engines page through a session's messages, and return the same pages of the
same messages. -/
theorem transcripts_agree (sha256 : List UInt8 → List UInt8) (events : List Event)
    (hsize : (history sha256 events).messages.length ≤ i64Max) (session : String) :
    ∃ messages, Holds (history sha256 events) session messages ∧
      Pages messages (transcriptSince (history sha256 events) session) ∧
      ∀ flat : FlatSession,
        Pages (flat.sessionMessages session)
          (fun after maxTokens => .ok (flat.transcriptSince session after maxTokens)) ∧
        (flat.sessionMessages session = messages → ∀ after maxTokens,
          transcriptSince (history sha256 events) session after maxTokens =
            .ok (flat.transcriptSince session after maxTokens)) := by
  obtain ⟨messages, hholds⟩ := exists_holds sha256 events session
  have hfetch := transcriptSince_eq hholds (hholds.length_le.trans hsize)
  refine ⟨messages, hholds, pages_of_clampSpan hfetch, fun flat => ⟨?_, ?_⟩⟩
  · exact pages_of_clampSpan fun _ _ => rfl
  · intro hsame after maxTokens
    rw [hfetch, FlatSession.transcriptSince, hsame]

/-- Three messages in one session. -/
def threeMessages : List Event :=
  [.openSession "general" "", .push 1 (.user "hello") none "",
    .push 1 (.assistant "hi") none "", .push 1 (.user "a longer message") none ""]

theorem transcripts_agree_threeMessages :
    ∃ messages, Holds (history (fun _ => []) threeMessages) "general" messages ∧
      Pages messages (transcriptSince (history (fun _ => []) threeMessages) "general") ∧
      ∀ flat : FlatSession,
        Pages (flat.sessionMessages "general")
          (fun after maxTokens => .ok (flat.transcriptSince "general" after maxTokens)) ∧
        (flat.sessionMessages "general" = messages → ∀ after maxTokens,
          transcriptSince (history (fun _ => []) threeMessages) "general" after maxTokens =
            .ok (flat.transcriptSince "general" after maxTokens)) :=
  transcripts_agree (fun _ => []) threeMessages (by decide) "general"

/-- The second page starts after an oversized head. -/
example : transcriptSince (history (fun _ => []) threeMessages) "general" 0 0 =
    .ok [.user "hello"] ∧
    transcriptSince (history (fun _ => []) threeMessages) "general" 1 3 =
      .ok [.assistant "hi"] := by
  decide

end Kitaebot.Lcm
