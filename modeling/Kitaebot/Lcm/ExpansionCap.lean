import Kitaebot.Lcm.ExpansionCost

/-!
# The token cap of an expansion

`lcm_expand` takes a token cap, at most 20000.  Every summary is stored with the
estimate of its content, so an expansion exceeds its cap by what the headers and
notes of its blocks take.  No constant bounds that: the excess is bounded exactly when
the number of blocks that the largest cap can pay for is.
-/

namespace Kitaebot.Lcm.Recall

open OrderedTable CappedPrint

/-! ### Priced summaries -/

/-- The stored estimate is that of the content. -/
def Priced (outcome : EscalationOutcome) : Prop :=
  outcome.outputTokens = estimateTokens outcome.content

theorem priced_summarizeWithEscalation (messages : List Message) (answers : LevelAnswers) :
    Priced (summarizeWithEscalation messages answers) := by
  have haccept : ∀ {content : String} {inputTokens outputTokens : ℕ},
      accept content inputTokens = some outputTokens →
        outputTokens = estimateTokens content :=
    fun haccept => (accept_eq_some haccept).1
  rw [Priced, summarizeWithEscalation]
  grind

theorem priced_summarizeChunk (messages : List Message) (answers : ChunkAnswers) :
    Priced (summarizeChunk messages answers) := by
  rw [summarizeChunk]
  cases answers.ride with
  | none => exact priced_summarizeWithEscalation messages answers.fresh
  | some ride =>
      simp only
      split
      · exact priced_summarizeWithEscalation messages ride
      · exact priced_summarizeWithEscalation messages answers.fresh

/-- The outcomes of a compaction come from the ladder. -/
def PricedEvent : Event → Prop
  | .compact _ _ outcomes => ∀ outcome ∈ outcomes, Priced outcome
  | _ => True

section Steps

variable {sha256 : List UInt8 → List UInt8} {conversation : ConversationId} {db : Db}
  {outcomes : List EscalationOutcome}

theorem priced_insertSummary {row : SummaryRow} {sources : List MessageId}
    {children : List SummaryId} {low high : ℕ} {after : Db}
    (hwrite : insertSummary db row sources children low high = .ok after)
    (hrow : row.tokenCount = estimateTokens row.content) (hdb : SummariesPriced db) :
    SummariesPriced after := by
  obtain ⟨_, rfl⟩ := insertSummary_ok hwrite
  intro other hother
  rcases List.mem_append.1 hother with hold | hnew
  · exact hdb other hold
  · rw [List.mem_singleton.1 hnew, hrow]

theorem priced_leafPass (chunks : List LeafChunk)
    (houtcomes : ∀ outcome ∈ outcomes, Priced outcome) (hdb : SummariesPriced db) :
    let result := leafPass sha256 conversation chunks outcomes db
    SummariesPriced result.db ∧
      ∀ rest, result.rest = some rest → ∀ outcome ∈ rest, Priced outcome := by
  induction chunks generalizing outcomes db with
  | nil =>
      refine ⟨hdb, fun rest hrest => ?_⟩
      cases hrest
      exact houtcomes
  | cons chunk chunks ih =>
      cases outcomes with
      | nil => exact ⟨hdb, fun _ hrest => by cases hrest⟩
      | cons outcome outcomes =>
          obtain ⟨houtcome, hrest⟩ := List.forall_mem_cons.1 houtcomes
          rw [leafPass]
          cases hwrite : writeLeafSummary sha256 db conversation chunk outcome with
          | error error => exact ⟨hdb, fun _ hrest => by cases hrest⟩
          | ok after =>
              rw [writeLeafSummary] at hwrite
              exact ih hrest (priced_insertSummary hwrite houtcome hdb)

theorem priced_condensedPass (cfg : LcmConfig) (pending : List CondensedChunk)
    (houtcomes : ∀ outcome ∈ outcomes, Priced outcome) (hdb : SummariesPriced db) :
    SummariesPriced (condensedPass sha256 conversation cfg outcomes pending db).db := by
  fun_induction condensedPass sha256 conversation cfg outcomes pending db with
  | case1 => exact hdb
  | case2 => exact hdb
  | case3 => exact hdb
  | case4 => exact hdb
  | case5 pending db chunk chunks outcome outcomes hbatch after hafter ih =>
      obtain ⟨houtcome, hrest⟩ := List.forall_mem_cons.1 houtcomes
      rw [writeCondensedSummary] at hafter
      exact ih hrest (priced_insertSummary hafter houtcome hdb)

theorem priced_runCompaction (cfg : LcmConfig)
    (houtcomes : ∀ outcome ∈ outcomes, Priced outcome) (hdb : SummariesPriced db) :
    SummariesPriced (runCompaction sha256 db conversation cfg outcomes).1 := by
  change SummariesPriced (compactionPasses sha256 db conversation cfg outcomes).db
  rw [compactionPasses]
  cases loadLeafChunks db conversation cfg with
  | error error => exact hdb
  | ok chunks =>
      have hleaf : let result := leafPass sha256 conversation chunks outcomes db
          SummariesPriced result.db ∧
            ∀ rest, result.rest = some rest → ∀ outcome ∈ rest, Priced outcome :=
        priced_leafPass chunks houtcomes hdb
      cases hpass : leafPass sha256 conversation chunks outcomes db with
      | mk after rest =>
          rw [hpass] at hleaf
          cases rest with
          | none => simpa only [hpass] using hleaf.1
          | some rest =>
              simp only [hpass]
              exact priced_condensedPass cfg [] (hleaf.2 rest rfl) hleaf.1

theorem priced_step (sha256 : List UInt8 → List UInt8) {event : Event}
    (hevent : PricedEvent event) (hdb : SummariesPriced db) :
    SummariesPriced (step sha256 db event) := by
  cases event with
  | push conversation message largeFile now => exact hdb
  | compact conversation cfg outcomes => exact priced_runCompaction cfg hevent hdb
  | clear conversation => exact hdb
  | openSession name now =>
      exact openSession_preserves (fun _ _ hafter => hafter) (fun _ _ _ _ hafter => hafter)
        hdb name now

theorem priced_history (sha256 : List UInt8 → List UInt8) {events : List Event}
    (hevents : ∀ event ∈ events, PricedEvent event) :
    SummariesPriced (history sha256 events) := by
  induction events using List.reverseRecOn with
  | nil => exact fun row hrow => by cases hrow
  | append_singleton events event ih =>
      rw [List.forall_mem_append, List.forall_mem_singleton] at hevents
      rw [history, Run.run_append]
      exact priced_step sha256 hevents.2 (ih hevents.1)

end Steps

/-! ### The tool -/

def defaultExpandTokenCap : ℕ := 5000

def maxExpandTokenCap : ℕ := 20000

/-- The cap of a call. -/
def asked (tokenCap : Option UInt32) : ℕ :=
  (tokenCap.map UInt32.toNat).getD defaultExpandTokenCap

namespace Request

variable (isWord : Char → Bool) (request : Request)

/-- `lcm_expand` with its other arguments as they were read. -/
def execute (tokenCap : Option UInt32) : Option (Except Stop String) :=
  request.reply isWord (min (asked tokenCap) maxExpandTokenCap)

/-- The store is that of a run. -/
def Reached : Prop :=
  ∃ sha256 events, (∀ event ∈ events, PricedEvent event) ∧
    request.db = history sha256 events

/-- The header and the ending of every block, and what is left of one that does not
fit, take at most so many bytes beside the content. -/
def Narrow (extra : ℕ) : Prop :=
  request.Known → ∀ piece ∈ request.blocks isWord, ∀ cap ≤ maxExpandTokenCap,
    piece.Within extra cap

/-- The text exceeds the cap that was asked for by at most so many tokens. -/
def Respects (slack : ℕ) : Prop :=
  ∀ tokenCap, ∃ text, replyText (request.execute isWord tokenCap) = some text ∧
    estimateTokens text ≤ asked tokenCap + slack

/-- At most so many blocks, from the root on, are affordable below the largest cap,
each with its header beside the content of those before it; an unknown root is at
most so long. -/
structure Bounded (most : ℕ) : Prop where
  known : request.Known → ∀ part, part <+: request.blocks isWord →
    Affordable maxExpandTokenCap 0 part → part.length ≤ most
  unknown : ¬ request.Known → estimateTokens (reprStr request.root) ≤ most

end Request

section Requests

variable {isWord : Char → Bool} {request : Request} {extra slack most : ℕ}

theorem Request.Reached.consistent (hreached : request.Reached) : request.db.Consistent := by
  obtain ⟨sha256, events, _, hdb⟩ := hreached
  rw [hdb]
  exact consistent_history sha256 events

theorem Request.Reached.priced (hreached : request.Reached) : SummariesPriced request.db := by
  obtain ⟨sha256, events, hevents, hdb⟩ := hreached
  rw [hdb]
  exact priced_history sha256 hevents

theorem maxExpandTokenCap_lt {cap : ℕ} (hcap : cap ≤ maxExpandTokenCap) :
    cap < UInt32.size :=
  lt_of_le_of_lt hcap (by decide)

/-- The reply to an unknown root names it, whatever the cap. -/
theorem reply_unknown (hunknown : ¬ request.Known) (cap : ℕ) :
    ∃ text, replyText (request.reply isWord cap) = some text ∧
      text.utf8ByteSize = (reprStr request.root).utf8ByteSize + 42 := by
  refine ⟨"No summary with id " ++ reprStr request.root ++ " in the active session.", ?_, ?_⟩
  · have hnone : ¬ request.db.summaries.any (fun row => row.summaryId == request.root &&
        row.conversationId == request.conversation) = true := hunknown
    rw [Request.reply, expand, if_neg hnone]
    rfl
  · have hstart : "No summary with id ".utf8ByteSize = 19 := by decide
    have hend : " in the active session.".utf8ByteSize = 23 := by decide
    rw [String.utf8ByteSize_append, String.utf8ByteSize_append, hstart, hend]
    omega

theorem respects_of_bounded (hreached : request.Reached)
    (hnarrow : request.Narrow isWord extra) (hbounded : request.Bounded isWord most) :
    request.Respects isWord ((extra + 12) * (most + 1)) := by
  intro tokenCap
  have hcap : min (asked tokenCap) maxExpandTokenCap ≤ maxExpandTokenCap :=
    Nat.min_le_right _ _
  have hasked : min (asked tokenCap) maxExpandTokenCap ≤ asked tokenCap :=
    Nat.min_le_left _ _
  by_cases hknown : request.Known
  · obtain ⟨text, part, htext, hpart, haffordable, hsize⟩ := reply_within
      hreached.consistent hreached.priced hknown (maxExpandTokenCap_lt hcap)
      fun piece hpiece => hnarrow hknown piece hpiece _ hcap
    have hmono : ∀ piece ∈ request.blocks isWord, piece.Monotone := monotone_walkPieces
    have hlength : part.length ≤ most := hbounded.known hknown part hpart
      (haffordable.mono (fun piece hpiece => hmono piece (hpart.subset hpiece)) hcap)
    refine ⟨text, htext, hsize.trans (Nat.add_le_add hasked ?_)⟩
    exact Nat.mul_le_mul (Nat.le_add_right _ _) (Nat.add_le_add_right hlength 1)
  · obtain ⟨text, htext, hsize⟩ := reply_unknown hknown
      (min (asked tokenCap) maxExpandTokenCap)
    refine ⟨text, htext, ?_⟩
    have hroot := hbounded.unknown hknown
    have hmore : (extra + 12) * (most + 1) = extra * (most + 1) + 12 * (most + 1) :=
      Nat.add_mul ..
    rw [estimateTokens, estimateTokensFromChars] at hroot ⊢
    rw [hsize, hmore]
    omega

theorem bounded_of_respects (hreached : request.Reached)
    (hnarrow : request.Narrow isWord extra) (hrespects : request.Respects isWord slack) :
    request.Bounded isWord (extra + slack) := by
  constructor
  · intro hknown part hpart haffordable
    have hfits : ∀ piece ∈ request.blocks isWord,
        piece.text.utf8ByteSize ≤ 4 * piece.charge + extra → piece.FitsWith extra :=
      fits_walkPieces extra
    have htexts := fun piece hpiece =>
      (hnarrow hknown piece hpiece 0 (Nat.zero_le _)).text
    obtain ⟨tight, htight, hpaid, hcharge⟩ := exists_tight_cap
      (fun piece hpiece => hfits piece (hpart.subset hpiece)
        (htexts piece (hpart.subset hpiece))) haffordable
    have hwidth := maxExpandTokenCap_lt htight
    obtain ⟨text, htext, hsize⟩ := affordable_le hreached.consistent hreached.priced hknown
      hwidth hpart hpaid
    obtain ⟨other, hother, hbound⟩ := hrespects (some (UInt32.ofNat tight))
    have hasked : asked (some (UInt32.ofNat tight)) = tight :=
      UInt32.toNat_ofNat_of_lt' hwidth
    rw [Request.execute, hasked, Nat.min_eq_left htight, htext] at hother
    rw [hasked, ← Option.some.inj hother] at hbound
    omega
  · intro hunknown
    obtain ⟨text, htext, hsize⟩ := reply_unknown hunknown 0
    obtain ⟨other, hother, hbound⟩ := hrespects (some 0)
    rw [Request.execute, show min (asked (some 0)) maxExpandTokenCap = 0 by decide,
      htext] at hother
    rw [← Option.some.inj hother, show asked (some 0) = 0 by decide] at hbound
    rw [estimateTokens, estimateTokensFromChars] at hbound ⊢
    omega

end Requests

/-! ### Short replies

Many replies of two letters: none is charged, each has a header. -/

/-- One longer message, then the short ones. -/
def shortReplies (count : ℕ) : List Event :=
  [.openSession "main" "", .push 1 (.assistant "abcdefgh") none ""] ++
    List.replicate count (.push 1 (.assistant "ok") none "")

/-- The context of a store of assistant messages that come to two tokens. -/
structure Quiet (db : Db) (count : ℕ) : Prop where
  consistent : db.Consistent
  summaries : db.summaries = []
  length : (rawRows db 1).length = count + 1
  assistant : ∀ raw ∈ rawRows db 1, raw.row.role = .assistant
  contents : ∀ raw ∈ rawRows db 1, raw.row.content = "abcdefgh" ∨ raw.row.content = "ok"
  rebuilt : ∀ raw ∈ rawRows db 1, ∃ message, reconstructMessage raw.row = .ok message
  charge : ((rawRows db 1).map fun raw => estimateTokens raw.row.content).sum = 2
  tokens : ((rawRows db 1).map (·.row.tokenCount)).sum = 2
  ids : ∀ row ∈ db.messages, row.messageId ≤ count + 1

theorem Quiet.push {db : Db} {count : ℕ} (hdb : Quiet db count) :
    Quiet (pushMessageSync db 1 (.assistant "ok") none "") (count + 1) := by
  have hrows := rawRows_push 1 (.assistant "ok") none "" hdb.consistent 1
  rw [if_pos rfl] at hrows
  have hall : ∀ {P : RawRow → Prop}, (∀ raw ∈ rawRows db 1, P raw) →
      P ⟨(pushedItem db 1).ordinal, pushedRow db 1 (.assistant "ok") ""⟩ →
        ∀ raw ∈ rawRows (pushMessageSync db 1 (.assistant "ok") none "") 1, P raw := by
    intro P hold hnew
    rw [hrows]
    exact List.forall_mem_append.2 ⟨hold, List.forall_mem_singleton.2 hnew⟩
  constructor
  · exact consistent_push 1 _ none "" hdb.consistent
  · exact hdb.summaries
  · rw [hrows, List.length_append, hdb.length, List.length_singleton]
  · exact hall hdb.assistant rfl
  · exact hall hdb.contents (.inr rfl)
  · exact hall hdb.rebuilt ⟨_, reconstructMessage_messageRow ..⟩
  · rw [hrows, List.map_append, List.sum_append, hdb.charge, List.map_singleton,
      List.sum_singleton]
    change 2 + estimateTokens "ok" = 2
    decide
  · rw [hrows, List.map_append, List.sum_append, hdb.tokens, List.map_singleton,
      List.sum_singleton]
    change 2 + estimateTokensFromChars (Message.assistant "ok").charCount = 2
    decide
  · intro row hrow
    rw [messages_push] at hrow
    rcases List.mem_append.1 hrow with hold | hnew
    · exact (hdb.ids row hold).trans (Nat.le_succ _)
    · rw [List.mem_singleton.1 hnew]
      change nextRowid MessageRow.messageId db.messages ≤ count + 1 + 1
      exact max_le (Nat.le_add_left _ _)
        (nextKey_le _ fun row hrow => Nat.lt_succ_of_le (hdb.ids row hrow))

theorem quiet_shortReplies (count : ℕ) :
    Quiet (history payloadSha256 (shortReplies count)) count := by
  induction count with
  | zero =>
      constructor
      · exact consistent_history _ _
      · rfl
      · decide
      · decide
      · decide
      · intro raw hraw
        exact ⟨.assistant "abcdefgh", by revert raw; decide⟩
      · decide
      · decide
      · decide
  | succ count ih =>
      have hone : shortReplies (count + 1) =
          shortReplies count ++ [.push 1 (.assistant "ok") none ""] := by
        rw [shortReplies, shortReplies, List.replicate_succ', List.append_assoc]
      rw [hone, history, Run.run_append]
      exact ih.push

/-- Rows within the budget, none of them pinned, are one group. -/
theorem leafGroups_single {budget tokens : ℕ} {rows current : List RawRow}
    (htokens : tokens + (rows.map (·.row.tokenCount)).sum ≤ budget)
    (hsome : current ++ rows ≠ []) :
    leafGroups none budget rows current tokens = [current ++ rows] := by
  induction rows generalizing current tokens with
  | nil =>
      rw [List.append_nil] at hsome ⊢
      rw [leafGroups, if_neg (by simpa using hsome)]
  | cons row rows ih =>
      rw [List.map_cons, List.sum_cons] at htokens
      have hover : ¬ budget < tokens + row.row.tokenCount := by omega
      rw [leafGroups, if_neg (Option.some_ne_none _), decide_eq_false hover, Bool.and_false,
        if_neg Bool.false_ne_true, ih (by omega) (by simp), List.append_assoc]
      rfl

theorem mapM_ok_of_forall {Source Target Error : Type} {f : Source → Except Error Target}
    {sources : List Source} (hall : ∀ source ∈ sources, ∃ target, f source = .ok target) :
    ∃ targets, sources.mapM f = .ok targets := by
  induction sources with
  | nil => exact ⟨[], rfl⟩
  | cons source sources ih =>
      obtain ⟨⟨target, htarget⟩, hrest⟩ := List.forall_mem_cons.1 hall
      obtain ⟨targets, htargets⟩ := ih hrest
      refine ⟨target :: targets, ?_⟩
      rw [List.mapM_cons, htarget, htargets]
      rfl

/-- The last message is kept, the others are summarized. -/
def shortConfig : LcmConfig where
  freshTailCount := 1
  leafChunkTokens := 10
  minCondensedFanout := 2

def shortOutcome : EscalationOutcome := ⟨"x", .normal, 2, 0⟩

theorem size_deriveSummaryId (ids : List MessageId) :
    (deriveSummaryId payloadSha256 "x" ids).utf8ByteSize ≤ 20 := by
  rw [deriveSummaryId, deriveSummaryIdInner, payloadSha256]
  split
  · decide
  split
  · decide
  · decide

/-- Without an outcome nothing is condensed. -/
theorem condensedPass_nil (sha256 : List UInt8 → List UInt8) (conversation : ConversationId)
    (cfg : LcmConfig) (pending : List CondensedChunk) (db : Db) :
    (condensedPass sha256 conversation cfg [] pending db).db = db := by
  rw [condensedPass.eq_def]
  cases condensedBatch db conversation cfg pending with
  | error error => rfl
  | ok chunks =>
      cases chunks with
      | nil => rfl
      | cons chunk chunks => rfl

/-- The summary of a quiet context. -/
theorem Quiet.compacted {db : Db} {count : ℕ} (hdb : Quiet db (count + 1)) :
    ∃ row, row.kind = .leaf ∧ row.conversationId = 1 ∧ row.content = "x" ∧
      row.tokenCount = 0 ∧ row.depth = 0 ∧ row.summaryId.utf8ByteSize ≤ 20 ∧
      db.findSummary row.summaryId = none ∧ ∃ low high,
      (runCompaction payloadSha256 db 1 shortConfig [shortOutcome]).1 =
        db.withSummary row (((rawRows db 1).take (count + 1)).map (·.row.messageId)) []
          low high := by
  have hpinned : pinnedOrdinal (rawRows db 1) = none := by
    have hnone : (rawRows db 1).filter (·.row.role == .user) = [] := by
      rw [List.filter_eq_nil_iff]
      intro raw hraw
      rw [hdb.assistant raw hraw]
      decide
    rw [pinnedOrdinal, hnone]
    rfl
  have heligible : eligibleRows shortConfig (rawRows db 1) =
      (rawRows db 1).take (count + 1) := by
    rw [eligibleRows, hdb.length]
    rfl
  have htokens : 0 + (((rawRows db 1).take (count + 1)).map (·.row.tokenCount)).sum ≤
      shortConfig.leafChunkTokens := by
    have hsub := ((List.take_sublist (count + 1) (rawRows db 1)).map
      (·.row.tokenCount)).sum_le_sum (fun _ _ => Nat.zero_le _)
    rw [hdb.tokens] at hsub
    change 0 + _ ≤ 10
    omega
  have hsome : [] ++ (rawRows db 1).take (count + 1) ≠ [] := by
    intro hnil
    have hlength := congrArg List.length hnil
    rw [List.nil_append, List.length_take, hdb.length, List.length_nil] at hlength
    omega
  have hgroups : loadLeafGroups db 1 shortConfig =
      [(rawRows db 1).take (count + 1)] := by
    rw [loadLeafGroups]
    simp only [hpinned, heligible]
    exact leafGroups_single htokens hsome
  obtain ⟨rows, hrows⟩ : ∃ rows, ((rawRows db 1).take (count + 1)).mapM chunkRow =
      .ok rows := by
    apply mapM_ok_of_forall
    intro raw hraw
    obtain ⟨message, hmessage⟩ := hdb.rebuilt raw (List.mem_of_mem_take hraw)
    rw [chunkRow, hmessage]
    exact ⟨_, rfl⟩
  have hids : rows.map ChunkRow.messageId =
      ((rawRows db 1).take (count + 1)).map (·.row.messageId) :=
    map_eq_of_forall₂ (mapM_ok_forall₂ hrows) fun _ _ hrow => (chunkRow_ok hrow).2.1
  have hload : loadLeafChunks db 1 shortConfig = .ok [⟨rows⟩] := by
    rw [loadLeafChunks, hgroups, List.mapM_cons, leafChunk, hrows]
    rfl
  have hwrite : writeLeafSummary payloadSha256 db 1 ⟨rows⟩ shortOutcome =
      .ok (db.withSummary (leafSummaryRow 1
        (deriveSummaryId payloadSha256 "x" (rows.map ChunkRow.messageId)) ⟨rows⟩
          shortOutcome) (rows.map ChunkRow.messageId) []
        (firstKey ChunkRow.ordinal rows) (lastKey ChunkRow.ordinal rows)) := by
    rw [writeLeafSummary, insertSummary, hdb.summaries]
    rfl
  refine ⟨leafSummaryRow 1 (deriveSummaryId payloadSha256 "x"
    (rows.map ChunkRow.messageId)) ⟨rows⟩ shortOutcome, rfl, rfl, rfl, rfl, rfl,
    size_deriveSummaryId _, ?_, firstKey ChunkRow.ordinal rows,
    lastKey ChunkRow.ordinal rows, ?_⟩
  · rw [Db.findSummary, hdb.summaries]
    rfl
  · change (compactionPasses payloadSha256 db 1 shortConfig [shortOutcome]).db = _
    rw [← hids, compactionPasses, hload]
    simp only [leafPass, hwrite]
    exact condensedPass_nil _ _ _ _ _

/-- The store of the short replies, compacted. -/
def shortRequest (count : ℕ) (root : SummaryId) : Request where
  payloads := fun _ => none
  db := history payloadSha256
    (shortReplies (count + 1) ++ [.compact 1 shortConfig [shortOutcome]])
  conversation := 1
  root := root
  depth := 1
  includeMessages := true

theorem reached_shortRequest (count : ℕ) (root : SummaryId) :
    (shortRequest count root).Reached := by
  refine ⟨payloadSha256, _, ?_, rfl⟩
  rw [shortReplies]
  intro event hevent
  simp only [List.mem_append, List.mem_cons, List.mem_replicate, List.not_mem_nil,
    or_false] at hevent
  rcases hevent with ((rfl | rfl) | ⟨_, rfl⟩) | rfl
  · trivial
  · trivial
  · trivial
  · have hprice : shortOutcome.outputTokens = estimateTokens shortOutcome.content := by
      decide
    exact List.forall_mem_singleton.2 hprice

/-- The messages below the summary of a quiet context. -/
theorem Quiet.leafMessages_perm {db : Db} {count : ℕ} (hdb : Quiet db count)
    {row : SummaryRow} (hfresh : db.findSummary row.summaryId = none) (taken low high : ℕ) :
    (leafMessages (db.withSummary row
      (((rawRows db 1).take taken).map (·.row.messageId)) [] low high)
        row.summaryId).Perm (((rawRows db 1).take taken).map (·.row)) := by
  rw [leafMessages, sourceRows_withSummary hdb.consistent hfresh, List.filterMap_map]
  have hfound : ((rawRows db 1).take taken).filterMap
      (db.findMessage ∘ fun raw => raw.row.messageId) =
        ((rawRows db 1).take taken).map (·.row) := by
    rw [← List.filterMap_eq_map]
    apply List.filterMap_congr
    intro raw hraw
    obtain ⟨item, _, _, hrow⟩ := mem_rawRows.mp (List.mem_of_mem_take hraw)
    exact (rawRow_eq_some hrow).2
  rw [hfound]
  exact orderBy_perm _ _

theorem size_shortMessage {row : MessageRow} {count : ℕ} (hcount : count < 10 ^ 11)
    (hid : row.messageId ≤ count) (hrole : row.role = .assistant)
    (hcontent : row.content = "abcdefgh" ∨ row.content = "ok") :
    (messagePiece row).text.utf8ByteSize ≤ 100 := by
  have hdigits : (toString row.messageId).utf8ByteSize ≤ 11 :=
    Text.size_repr_le (lt_of_le_of_lt hid hcount)
  have hname : (roleText row.role).utf8ByteSize = 9 := by
    rw [hrole]
    decide
  have hshort : row.content.utf8ByteSize ≤ 8 := by
    rcases hcontent with hcontent | hcontent
    · rw [hcontent]
      decide
    · rw [hcontent]
      decide
  calc
    (messagePiece row).text.utf8ByteSize =
        (toString row.messageId).utf8ByteSize + (roleText row.role).utf8ByteSize +
          row.content.utf8ByteSize + 24 := size_block _ _ _
    _ ≤ 11 + 9 + 8 + 24 := by
      rw [hname]
      exact Nat.add_le_add_right
        (Nat.add_le_add (Nat.add_le_add_right hdigits 9) hshort) 24
    _ ≤ 100 := by decide

theorem size_shortNode {row : SummaryRow} (hkind : row.kind = .leaf)
    (hcontent : row.content = "x") (hdepth : row.depth = 0)
    (hid : row.summaryId.utf8ByteSize ≤ 20) :
    (nodePiece row 0 0).text.utf8ByteSize ≤ 100 := by
  have hstart : "## ".utf8ByteSize = 3 := by decide
  have hrest : (" (kind=" ++ SummaryKind.leaf.text ++ ", depth=" ++ toString 0 ++
      ", level=" ++ toString 0 ++ ")\n" ++ "x" ++ "\n\n").utf8ByteSize ≤ 77 := by
    decide
  have hsplit : (nodePiece row 0 0).text = "## " ++ row.summaryId ++ (" (kind=" ++
      SummaryKind.leaf.text ++ ", depth=" ++ toString 0 ++ ", level=" ++ toString 0 ++
        ")\n" ++ "x" ++ "\n\n") := by
    simp only [nodePiece, nodeText, hkind, hcontent, hdepth, String.append_assoc]
  rw [hsplit, String.utf8ByteSize_append, String.utf8ByteSize_append, hstart]
  omega

/-- The reply to the request has a block for the summary and one for each message
below it, all charged for two tokens. -/
theorem exists_shortBlocks {count : ℕ} (hcount : count + 2 < 10 ^ 11) :
    ∃ root, (shortRequest count root).Known ∧
      ∃ blocks, (shortRequest count root).blocks asciiWord = blocks ∧
        blocks.length = count + 2 ∧ totalCharge blocks ≤ 2 ∧
        ∀ piece ∈ blocks, piece.text.utf8ByteSize ≤ 4 * piece.charge + 100 := by
  have hdb := quiet_shortReplies (count + 1)
  generalize hstore : history payloadSha256 (shortReplies (count + 1)) = db at hdb
  obtain ⟨row, hkind, hconversation, hcontent, htokens, hdepth, hid, hfresh, low, high,
    hcompact⟩ := hdb.compacted
  have hperm := hdb.leafMessages_perm hfresh (count + 1) low high
  generalize hafter : db.withSummary row (((rawRows db 1).take (count + 1)).map
    (·.row.messageId)) [] low high = after at hcompact hperm
  have hrequest : (shortRequest count row.summaryId).db = after := by
    change history payloadSha256 (shortReplies (count + 1) ++ _) = after
    rw [history, Run.run_append]
    change (runCompaction payloadSha256 (history payloadSha256 (shortReplies (count + 1)))
      1 shortConfig [shortOutcome]).1 = after
    rw [hstore, hcompact]
  have hconsistent : after.Consistent :=
    hrequest ▸ (reached_shortRequest count row.summaryId).consistent
  have hmem : row ∈ after.summaries := by
    rw [← hafter]
    exact List.mem_append_right _ (List.mem_singleton_self row)
  have hfound := hconsistent.findSummary_eq hmem
  have hleaf : ∀ message ∈ leafMessages after row.summaryId,
      ∃ raw ∈ rawRows db 1, raw.row = message := by
    intro message hmessage
    obtain ⟨raw, hraw, hrow⟩ := List.mem_map.1 (hperm.subset hmessage)
    exact ⟨raw, List.mem_of_mem_take hraw, hrow⟩
  have hpieces : (leafMessages after row.summaryId).flatMap
      (messagePieces asciiWord fun _ => none) =
        (leafMessages after row.summaryId).map messagePiece := by
    rw [List.map_eq_flatMap]
    apply List.flatMap_congr
    intro message hmessage
    obtain ⟨raw, hraw, rfl⟩ := hleaf message hmessage
    have hfiles : extractFileIds asciiWord raw.row.content = [] := by
      rcases hdb.contents raw hraw with hcontent | hcontent
      · rw [hcontent]
        decide
      · rw [hcontent]
        decide
    rw [messagePieces, hfiles, List.map_nil]
  refine ⟨row.summaryId, ?_, nodePiece row 0 0 ::
    (leafMessages after row.summaryId).map messagePiece, ?_, ?_, ?_, ?_⟩
  · change (shortRequest count row.summaryId).db.summaries.any _ = true
    rw [hrequest]
    apply List.any_eq_true.2 ⟨row, hmem, ?_⟩
    rw [hconversation]
    simp [shortRequest]
  · rw [Request.blocks, hrequest, walkPieces]
    simp only [hfound, hkind, shortRequest, walkPieces, hpieces]
    rw [if_neg (by decide), if_pos trivial, List.append_nil, List.length_nil]
  · rw [List.length_cons, List.length_map, hperm.length_eq, List.length_map,
      List.length_take, hdb.length]
    omega
  · have hsublist : ((leafMessages after row.summaryId).map fun message =>
        estimateTokens message.content).sum ≤ 2 := by
      rw [(hperm.map _).sum_eq, List.map_map, ← hdb.charge]
      exact ((List.take_sublist _ _).map _).sum_le_sum fun _ _ => Nat.zero_le _
    rw [totalCharge_cons, totalCharge, List.map_map]
    change row.tokenCount + _ ≤ 2
    rw [htokens, Nat.zero_add]
    exact hsublist
  · intro piece hpiece
    apply le_trans _ (Nat.le_add_left _ _)
    rcases List.mem_cons.1 hpiece with rfl | hpiece
    · exact size_shortNode hkind hcontent hdepth hid
    · obtain ⟨message, hmessage, rfl⟩ := List.mem_map.1 hpiece
      obtain ⟨raw, hraw, rfl⟩ := hleaf message hmessage
      obtain ⟨item, _, _, hrow⟩ := mem_rawRows.mp hraw
      have hmessages := (Db.mem_of_findMessage (rawRow_eq_some hrow).2).1
      exact size_shortMessage hcount (hdb.ids _ hmessages) (hdb.assistant raw hraw)
        (hdb.contents raw hraw)

/-- The root and the message of `shortRequest 0`. -/
def shortRoot : SummaryRow where
  summaryId := "sum_"
  conversationId := 1
  kind := .leaf
  depth := 0
  content := "x"
  tokenCount := 0
  earliestAt := ""
  latestAt := ""
  descendantCount := 1
  descendantTokenCount := 2
  sourceMessageTokenCount := 2
  model := "level1"

def shortMessage : MessageRow := messageRow 1 1 0 "" (.assistant "abcdefgh")

theorem blocks_shortRequest : (shortRequest 0 "sum_").blocks asciiWord =
    [nodePiece shortRoot 0 0, messagePiece shortMessage] := by
  have hroot : (shortRequest 0 "sum_").db.findSummary "sum_" = some shortRoot := by
    decide +kernel
  have hleaf : leafMessages (shortRequest 0 "sum_").db "sum_" = [shortMessage] := by
    decide +kernel
  have hfiles : extractFileIds asciiWord shortMessage.content = [] := by
    decide
  have hkind : shortRoot.kind = .leaf := rfl
  change walkPieces asciiWord (fun _ => none) (shortRequest 0 "sum_").db 1 true _
    [("sum_", 0)] ["sum_"] = _
  simp only [walkPieces, hroot, hkind, hleaf, List.flatMap_singleton, messagePieces, hfiles,
    List.map_nil, List.length_nil]
  rfl

theorem size_expandCap {cap : ℕ} (hcap : cap ≤ maxExpandTokenCap) :
    (toString cap).utf8ByteSize ≤ 5 := by
  have hwidth : maxExpandTokenCap < 10 ^ (4 + 1) := by decide
  exact Text.size_repr_le (lt_of_le_of_lt hcap hwidth)

theorem size_note (number ending : String) :
    ("[truncated at token_cap=" ++ number ++ ending).utf8ByteSize =
      number.utf8ByteSize + ending.utf8ByteSize + 24 := by
  have hstart : "[truncated at token_cap=".utf8ByteSize = 24 := by decide
  rw [String.utf8ByteSize_append, String.utf8ByteSize_append, hstart]
  omega

theorem size_truncation {cap : ℕ} (hcap : cap ≤ maxExpandTokenCap) :
    (truncationText cap).utf8ByteSize ≤ 100 :=
  calc
    (truncationText cap).utf8ByteSize =
        (toString cap).utf8ByteSize + "]\n".utf8ByteSize + 24 := size_note _ _
    _ ≤ 5 + "]\n".utf8ByteSize + 24 :=
      Nat.add_le_add_right (Nat.add_le_add_right (size_expandCap hcap) _) 24
    _ ≤ 100 := by decide

theorem size_frontierNote {cap : ℕ} (hcap : cap ≤ maxExpandTokenCap) (used : ℕ) :
    ((nodePiece shortRoot 0 0).stop cap used).utf8ByteSize ≤ 100 := by
  have hsplit : (nodePiece shortRoot 0 0).stop cap used = "[truncated at token_cap=" ++
      toString cap ++ ("; remaining frontier: " ++ toString (0 + 1) ++ " node(s)]\n") := by
    simp only [nodePiece, String.append_assoc]
  calc
    ((nodePiece shortRoot 0 0).stop cap used).utf8ByteSize =
        (toString cap).utf8ByteSize +
          ("; remaining frontier: " ++ toString (0 + 1) ++ " node(s)]\n").utf8ByteSize + 24 := by
      rw [hsplit]
      exact size_note _ _
    _ ≤ 5 + ("; remaining frontier: " ++ toString (0 + 1) ++
          " node(s)]\n").utf8ByteSize + 24 :=
      Nat.add_le_add_right (Nat.add_le_add_right (size_expandCap hcap) _) 24
    _ ≤ 100 := by decide

/-! ### The cap -/

/-- A constant bounds what the expansions exceed their caps by exactly when a constant
bounds the blocks that the largest cap can pay for: every further block is charged
without its header. -/
theorem expansion_respects_iff {isWord : Char → Bool} {extra : ℕ} {requests : Set Request}
    (hreached : ∀ request ∈ requests, request.Reached)
    (hnarrow : ∀ request ∈ requests, request.Narrow isWord extra) :
    ((∃ slack, ∀ request ∈ requests, request.Respects isWord slack) ↔
      ∃ most, ∀ request ∈ requests, request.Bounded isWord most) ∧
    ∀ request ∈ requests,
      (∀ most, request.Bounded isWord most →
        request.Respects isWord ((extra + 12) * (most + 1))) ∧
      ∀ slack, request.Respects isWord slack → request.Bounded isWord (extra + slack) := by
  refine ⟨⟨?_, ?_⟩, fun request hrequest => ⟨fun most => ?_, fun slack => ?_⟩⟩
  · rintro ⟨slack, hslack⟩
    exact ⟨extra + slack, fun request hrequest => bounded_of_respects
      (hreached request hrequest) (hnarrow request hrequest) (hslack request hrequest)⟩
  · rintro ⟨most, hmost⟩
    exact ⟨(extra + 12) * (most + 1), fun request hrequest => respects_of_bounded
      (hreached request hrequest) (hnarrow request hrequest) (hmost request hrequest)⟩
  · exact respects_of_bounded (hreached request hrequest) (hnarrow request hrequest)
  · exact bounded_of_respects (hreached request hrequest) (hnarrow request hrequest)

theorem expansion_respects_shortRequest :
    ((∃ slack, ∀ request ∈ ({shortRequest 0 "sum_"} : Set Request),
      request.Respects asciiWord slack) ↔
      ∃ most, ∀ request ∈ ({shortRequest 0 "sum_"} : Set Request),
        request.Bounded asciiWord most) ∧
    ∀ request ∈ ({shortRequest 0 "sum_"} : Set Request),
      (∀ most, request.Bounded asciiWord most →
        request.Respects asciiWord ((100 + 12) * (most + 1))) ∧
      ∀ slack, request.Respects asciiWord slack →
        request.Bounded asciiWord (100 + slack) := by
  apply expansion_respects_iff
  · rintro request rfl
    exact reached_shortRequest 0 "sum_"
  · rintro request rfl _ piece hpiece cap hcap
    rw [blocks_shortRequest] at hpiece
    rcases List.mem_pair.1 hpiece with rfl | rfl
    · exact ⟨(size_shortNode rfl rfl rfl (by decide)).trans (Nat.le_add_left _ _),
        fun used _ => (size_frontierNote hcap used).trans (Nat.le_add_left _ _)⟩
    · exact ⟨(size_shortMessage (by decide) (le_refl 1) rfl (.inl rfl)).trans
          (Nat.le_add_left _ _),
        fun _ _ => (size_truncation hcap).trans (Nat.le_add_left _ _)⟩

/-- No number of tokens bounds what an expansion exceeds its cap by. -/
theorem expansion_exceeds_cap :
    ¬ ∃ slack < UInt32.size, ∀ request : Request, request.Reached → request.Known →
      request.Respects asciiWord slack := by
  rintro ⟨slack, hslack, hrespects⟩
  have hwidth : UInt32.size = 2 ^ 32 := by decide
  have hcount : slack + 20 + 2 < 10 ^ 11 := by omega
  obtain ⟨root, hknown, blocks, hblocks, hlength, hcharge, hsizes⟩ :=
    exists_shortBlocks hcount
  have hreached := reached_shortRequest (slack + 20) root
  have hfits : ∀ piece ∈ (shortRequest (slack + 20) root).blocks asciiWord,
      piece.text.utf8ByteSize ≤ 4 * piece.charge + 100 → piece.FitsWith 100 :=
    fits_walkPieces 100
  rw [hblocks] at hfits
  have hprefix : blocks <+: (shortRequest (slack + 20) root).blocks asciiWord := by
    rw [hblocks]
  have hpaid : Affordable 102 0 blocks := affordable_of_fitsWith
    (fun piece hpiece => hfits piece hpiece (hsizes piece hpiece)) (by omega)
  obtain ⟨text, htext, hsize⟩ := affordable_le hreached.consistent
    hreached.priced hknown (by decide) hprefix hpaid
  obtain ⟨other, hother, hbound⟩ := hrespects _ hreached hknown (some 102)
  rw [Request.execute, show min (asked (some 102)) maxExpandTokenCap = 102 by decide,
    htext] at hother
  rw [← Option.some.inj hother, show asked (some 102) = 102 by decide] at hbound
  omega

end Kitaebot.Lcm.Recall
