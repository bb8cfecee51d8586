import Kitaebot.Core.CappedPrint
import Kitaebot.Lcm.CompactionTokens
import Kitaebot.Lcm.Recall

/-!
# What an expansion costs

The text of `lcm_expand` is a print of blocks under its token cap: summaries,
source messages, payloads and the notes in place of missing ones.  A block is
charged for its content only, so what it exceeds the cap by grows with the number
of the blocks.
-/

namespace Kitaebot.Lcm.Recall

open OrderedTable CappedPrint

/-! ### The blocks of an expansion -/

section Blocks

variable (isWord : Char → Bool) (payloads : FileId → Option String) (db : Db)

/-- A payload, or the note that it is missing. -/
def mentionPiece (id : FileId) : Piece :=
  match payloads id with
  | none => ⟨unavailableText id, 0, fun _ _ => true, fun _ _ => ""⟩
  | some payload =>
      { text := payloadText id payload
        charge := estimateTokens payload
        fits := fun cap used => decide (payload.utf8ByteSize ≤ (cap - used) * 4)
        stop := fun cap used =>
          let kept := String.ofList
            (Text.leadingSymbols ((cap - used) * 4) payload.toList)
          "### " ++ id ++ " (externalized payload, first " ++
            toString kept.utf8ByteSize ++ " of " ++ toString payload.utf8ByteSize ++
            " bytes)\n" ++ kept ++ "\n" ++ truncationText cap }

def messagePiece (row : MessageRow) : Piece where
  text := blockText row
  charge := estimateTokens row.content
  fits := fun cap used => decide (used + estimateTokens (blockText row) ≤ cap)
  stop := fun cap _ => truncationText cap

/-- A source message with the files it mentions. -/
def messagePieces (row : MessageRow) : List Piece :=
  messagePiece row :: (extractFileIds isWord row.content).map (mentionPiece payloads)

def nodePiece (row : SummaryRow) (level frontier : ℕ) : Piece where
  text := nodeText row level
  charge := row.tokenCount
  fits := fun cap used => decide (used + estimateTokens (nodeText row level) ≤ cap)
  stop := fun cap _ => "[truncated at token_cap=" ++ toString cap ++
    "; remaining frontier: " ++ toString (frontier + 1) ++ " node(s)]\n"

/-- The blocks of the whole walk, without a cap. -/
def walkPieces (depth : ℕ) (includeMessages : Bool) :
    ℕ → List (SummaryId × ℕ) → List SummaryId → List Piece
  | _, [], _ => []
  | 0, _ :: _, _ => []
  | fuel + 1, (id, level) :: frontier, seen =>
      match db.findSummary id with
      | none => []
      | some row =>
          nodePiece row level frontier.length ::
            if depth ≤ level then walkPieces depth includeMessages fuel frontier seen
            else
              match row.kind with
              | .leaf =>
                  (if includeMessages then
                    (leafMessages db id).flatMap (messagePieces isWord payloads)
                  else []) ++ walkPieces depth includeMessages fuel frontier seen
              | .condensed =>
                  let next := Traversal.discover (level + 1) (sortedChildren db id)
                    frontier seen
                  walkPieces depth includeMessages fuel next.1 next.2

end Blocks

/-- A call of the tool but for its cap. -/
structure Request where
  payloads : FileId → Option String
  db : Db
  conversation : ConversationId
  root : SummaryId
  depth : ℕ
  includeMessages : Bool

namespace Request

variable (isWord : Char → Bool) (request : Request)

def reply (cap : ℕ) : Option (Except Stop String) :=
  expand isWord request.payloads request.db cap request.conversation request.root
    request.depth request.includeMessages

/-- The root is a summary of the conversation. -/
def Known : Prop :=
  request.db.summaries.any (fun row => row.summaryId == request.root &&
    row.conversationId == request.conversation) = true

def blocks : List Piece :=
  walkPieces isWord request.payloads request.db request.depth request.includeMessages
    (request.db.summaryParents.length + 1) [(request.root, 0)] [request.root]

end Request

/-- What the tool returns; a row that is missing is an error. -/
def replyText : Option (Except Stop String) → Option String
  | some (.ok text) => some text
  | some (.error (.truncated text)) => some text
  | some (.error (.failed _)) => none
  | none => none

/-- Each summary is stored with the estimate of its content. -/
def SummariesPriced (db : Db) : Prop :=
  ∀ row ∈ db.summaries, row.tokenCount = estimateTokens row.content

/-! ### The loop prints its blocks -/

/-- The output stands for what was printed. -/
structure Shows (output : Output) (printed : Printed) : Prop where
  text : output.text = printed.text
  used : output.tokensUsed.toNat = printed.used

/-- The step came to what was printed. -/
def Agrees (result : Except Stop Output) (printed : Except String Printed) : Prop :=
  match printed with
  | .ok printed => ∃ output, result = .ok output ∧ Shows output printed
  | .error text => result = .error (.truncated text)

section Steps

variable {isWord : Char → Bool} {payloads : FileId → Option String} {db : Db}
  {cap : ℕ} {output : Output} {printed : Printed}

/-- A charge within the cap is counted exactly. -/
theorem Shows.charge (hshows : Shows output printed) (hcap : cap < UInt32.size)
    {charge : ℕ} (hcharge : printed.used + charge ≤ cap) (text : String) :
    Shows ⟨output.text ++ text, output.tokensUsed + u32OrMax charge⟩
      ⟨printed.text ++ text, printed.used + charge⟩ where
  text := by rw [hshows.text]
  used := by
    have hsize : charge < UInt32.size := by omega
    have hmax : (u32OrMax charge).toNat = charge := by
      rw [u32OrMax, if_pos hsize]
      exact UInt32.toNat_ofNat_of_lt' hsize
    have hwidth : UInt32.size = 2 ^ 32 := by decide
    have hsum : printed.used + charge < 2 ^ 32 := by omega
    change (output.tokensUsed + u32OrMax charge).toNat = printed.used + charge
    rw [UInt32.toNat_add, hmax, hshows.used]
    exact Nat.mod_eq_of_lt hsum

theorem estimateTokens_le {text whole : String} (hsize : text.utf8ByteSize ≤ whole.utf8ByteSize) :
    estimateTokens text ≤ estimateTokens whole := by
  rw [estimateTokens, estimateTokens, estimateTokensFromChars, estimateTokensFromChars]
  exact Nat.div_le_div_right hsize

theorem content_le_blockText (row : MessageRow) :
    row.content.utf8ByteSize ≤ (blockText row).utf8ByteSize :=
  Text.Includes.size_le ⟨_, "\n\n", rfl⟩

theorem content_le_nodeText (row : SummaryRow) (level : ℕ) :
    row.content.utf8ByteSize ≤ (nodeText row level).utf8ByteSize :=
  Text.Includes.size_le ⟨_, "\n\n", rfl⟩

theorem sound_mentionPiece (id : FileId) : (mentionPiece payloads id).Sound := by
  intro cap used hused hfits
  unfold mentionPiece at hfits ⊢
  cases hpayload : payloads id with
  | none => exact hused
  | some payload =>
      simp only [hpayload, decide_eq_true_eq] at hfits
      simp only [estimateTokens, estimateTokensFromChars]
      omega

theorem sound_messagePiece (row : MessageRow) : (messagePiece row).Sound := by
  intro cap used _ hfits
  have hblock := of_decide_eq_true hfits
  have hcontent := estimateTokens_le (content_le_blockText row)
  change used + estimateTokens row.content ≤ cap
  omega

theorem sound_nodePiece (hpriced : SummariesPriced db) {row : SummaryRow}
    (hrow : row ∈ db.summaries) (level frontier : ℕ) :
    (nodePiece row level frontier).Sound := by
  intro cap used _ hfits
  have hnode := of_decide_eq_true hfits
  have hcontent := estimateTokens_le (content_le_nodeText row level)
  change used + row.tokenCount ≤ cap
  rw [hpriced row hrow]
  omega

theorem agrees_payload (hcap : cap < UInt32.size) (hshows : Shows output printed)
    (hused : printed.used ≤ cap) (id : FileId) :
    Agrees (appendPayload payloads cap output id)
      (print cap [mentionPiece payloads id] printed) := by
  have hsound : (mentionPiece payloads id).fits cap printed.used = true →
      printed.used + (mentionPiece payloads id).charge ≤ cap :=
    sound_mentionPiece id cap printed.used hused
  rw [appendPayload, print, print]
  unfold mentionPiece at hsound ⊢
  cases hpayload : payloads id with
  | none =>
      simp only [if_true]
      refine ⟨_, rfl, ?_, hshows.used⟩
      rw [hshows.text]
  | some payload =>
      simp only [hpayload] at hsound
      simp only [hshows.used, decide_eq_true_eq] at hsound ⊢
      by_cases hfits : payload.utf8ByteSize ≤ (cap - printed.used) * 4
      · rw [if_pos hfits, if_pos hfits]
        exact ⟨_, rfl, hshows.charge hcap (hsound hfits) _⟩
      · rw [if_neg hfits, if_neg hfits, hshows.text]
        simp only [Agrees, String.append_assoc]

/-- Appending in turn prints the blocks in turn. -/
theorem agrees_foldlM {Value : Type} {append : Output → Value → Except Stop Output}
    {pieces : Value → List Piece} {values : List Value}
    (happend : ∀ value ∈ values, ∀ output printed, Shows output printed →
      printed.used ≤ cap → Agrees (append output value) (print cap (pieces value) printed))
    (hsound : ∀ value ∈ values, ∀ piece ∈ pieces value, piece.Sound)
    (hshows : Shows output printed) (hused : printed.used ≤ cap) :
    Agrees (values.foldlM append output) (print cap (values.flatMap pieces) printed) := by
  induction values generalizing output printed with
  | nil => exact ⟨output, rfl, hshows⟩
  | cons value values ih =>
      obtain ⟨hvalue, hvalues⟩ := List.forall_mem_cons.1 happend
      obtain ⟨hpiece, hpieces⟩ := List.forall_mem_cons.1 hsound
      have hfirst := hvalue output printed hshows hused
      rw [List.flatMap_cons, print_append, List.foldlM_cons]
      cases hprint : print cap (pieces value) printed with
      | error text =>
          rw [hprint] at hfirst
          rw [show append output value = _ from hfirst]
          rfl
      | ok next =>
          rw [hprint] at hfirst
          obtain ⟨after, hafter, hnext⟩ := hfirst
          rw [hafter]
          exact ih hvalues hpieces hnext (used_print hpiece hused hprint)

theorem sound_messagePieces (row : MessageRow) :
    ∀ piece ∈ messagePieces isWord payloads row, piece.Sound := by
  intro piece hpiece
  rcases List.mem_cons.1 hpiece with rfl | hpiece
  · exact sound_messagePiece row
  · obtain ⟨id, _, rfl⟩ := List.mem_map.1 hpiece
    exact sound_mentionPiece id

theorem agrees_message (hcap : cap < UInt32.size) (hshows : Shows output printed)
    (hused : printed.used ≤ cap) (row : MessageRow) :
    Agrees (appendMessage isWord payloads cap output row)
      (print cap (messagePieces isWord payloads row) printed) := by
  have hmentions : (extractFileIds isWord row.content).map (mentionPiece payloads) =
      (extractFileIds isWord row.content).flatMap fun id => [mentionPiece payloads id] :=
    List.map_eq_flatMap
  rw [appendMessage, messagePieces, print, hmentions]
  simp only [messagePiece, hshows.used, decide_eq_true_eq]
  by_cases hfits : printed.used + estimateTokens (blockText row) ≤ cap
  · rw [if_neg (Nat.not_lt.2 hfits), if_pos hfits]
    have hcharge : printed.used + estimateTokens row.content ≤ cap :=
      sound_messagePiece row cap printed.used hused (decide_eq_true hfits)
    apply agrees_foldlM
    · intro id _ output printed hshows hused
      exact agrees_payload hcap hshows hused id
    · intro id _ piece hpiece
      rw [List.mem_singleton.1 hpiece]
      exact sound_mentionPiece id
    · exact hshows.charge hcap hcharge _
    · exact hcharge
  · rw [if_pos (Nat.lt_of_not_le hfits), if_neg hfits, hshows.text]
    rfl

/-- What a print comes to, as the loop returns it. -/
def returned : Except String Printed → Except Stop String
  | .ok printed => .ok printed.text
  | .error text => .error (.truncated text)

theorem mem_sortedChildren_bound {parent child : SummaryId}
    (hchild : child ∈ sortedChildren db parent) :
    child ∈ (db.summaryParents.map SummaryParent.summaryId).toFinset := by
  rw [mem_sortedChildren] at hchild
  rw [List.mem_toFinset]
  exact List.mem_map.2 ⟨_, hchild, rfl⟩

variable {depth : ℕ} {includeMessages : Bool} {fuel : ℕ}
  {stack : List (SummaryId × ℕ)} {seen : List SummaryId}

/-- What holds of a loop that has fuel for all it can still find. -/
structure Ready (db : Db) (fuel : ℕ) (stack : List (SummaryId × ℕ))
    (seen : List SummaryId) : Prop where
  found : ∀ entry ∈ stack, ∃ row, db.findSummary entry.1 = some row
  fuel : ((db.summaryParents.map SummaryParent.summaryId).toFinset \
    seen.toFinset).card + stack.length ≤ fuel

theorem Ready.skip {entry : SummaryId × ℕ} (hready : Ready db (fuel + 1) (entry :: stack) seen) :
    Ready db fuel stack seen where
  found := fun other hother => hready.found other (List.mem_cons_of_mem _ hother)
  fuel := by
    have hfuel := hready.fuel
    rw [List.length_cons] at hfuel
    omega

theorem Ready.discover (hdb : db.Consistent) {entry : SummaryId × ℕ}
    (hready : Ready db (fuel + 1) (entry :: stack) seen) :
    let next := Traversal.discover (entry.2 + 1) (sortedChildren db entry.1) stack seen
    Ready db fuel next.1 next.2 := by
  constructor
  · intro other hother
    obtain ⟨⟨fresh, hfresh, _, hfound, _⟩, _⟩ := Traversal.discovered (entry.2 + 1)
      (sortedChildren db entry.1) stack seen
    rw [hfresh] at hother
    rcases List.mem_append.1 hother with hnew | hold
    · obtain ⟨child, hchild, rfl⟩ := List.mem_map.1 hnew
      have hmem := (hfound child hchild).1
      rw [sortedChildren, List.mem_insertionSort] at hmem
      exact hdb.childIds_found hmem
    · exact hready.found other (List.mem_cons_of_mem _ hold)
  · have hmeasure := Traversal.discover_measure
      (fun child (hchild : child ∈ sortedChildren db entry.1) =>
        mem_sortedChildren_bound hchild) (entry.2 + 1) stack seen
    have hfuel := hready.fuel
    rw [List.length_cons] at hfuel
    omega

/-- The loop prints the blocks of its walk. -/
theorem expandLoop_print (hdb : db.Consistent) (hpriced : SummariesPriced db)
    (hcap : cap < UInt32.size) (hready : Ready db fuel stack seen)
    (hshows : Shows output printed) (hused : printed.used ≤ cap) :
    expandLoop isWord payloads db cap depth includeMessages fuel stack seen output =
      some (returned (print cap
        (walkPieces isWord payloads db depth includeMessages fuel stack seen) printed)) := by
  induction fuel generalizing stack seen output printed with
  | zero =>
      cases stack with
      | nil => rw [expandLoop, walkPieces, print, returned, hshows.text]
      | cons entry stack =>
          have hfuel := hready.fuel
          rw [List.length_cons] at hfuel
          omega
  | succ fuel ih =>
      cases stack with
      | nil => rw [expandLoop, walkPieces, print, returned, hshows.text]
      | cons entry stack =>
          obtain ⟨id, level⟩ := entry
          obtain ⟨row, hrow⟩ := hready.found (id, level) List.mem_cons_self
          have hmem := (Db.mem_of_findSummary hrow).1
          simp only [expandLoop, walkPieces, hrow, print, nodePiece, hshows.used,
            decide_eq_true_eq]
          by_cases hfits : printed.used + estimateTokens (nodeText row level) ≤ cap
          swap
          · rw [if_pos (Nat.lt_of_not_le hfits), if_neg hfits, hshows.text]
            simp only [returned, String.append_assoc]
          rw [if_neg (Nat.not_lt.2 hfits), if_pos hfits]
          have hcharge : printed.used + row.tokenCount ≤ cap :=
            sound_nodePiece hpriced hmem level stack.length cap printed.used hused
              (decide_eq_true hfits)
          have hnode := hshows.charge hcap hcharge (nodeText row level)
          by_cases hdeep : depth ≤ level
          · rw [if_pos hdeep, if_pos hdeep]
            exact ih hready.skip hnode hcharge
          rw [if_neg hdeep, if_neg hdeep]
          cases hkind : row.kind with
          | condensed => exact ih (hready.discover hdb) hnode hcharge
          | leaf =>
              cases includeMessages with
              | false => exact ih hready.skip hnode hcharge
              | true =>
                  simp only [if_true, print_append]
                  have hrows : Agrees ((leafMessages db id).foldlM
                      (appendMessage isWord payloads cap) _) _ :=
                    agrees_foldlM
                      (fun _ _ _ _ hshows hused => agrees_message hcap hshows hused _)
                      (fun value _ => sound_messagePieces value) hnode hcharge
                  cases hprint : print cap ((leafMessages db id).flatMap
                      (messagePieces isWord payloads))
                        ⟨printed.text ++ nodeText row level,
                          printed.used + row.tokenCount⟩ with
                  | error text =>
                      rw [hprint] at hrows
                      simp only [show _ = _ from hrows]
                      rfl
                  | ok next =>
                      rw [hprint] at hrows
                      obtain ⟨after, hafter, hnext⟩ := hrows
                      simp only [hafter]
                      exact ih hready.skip hnext
                        (used_print (fun piece hpiece => by
                          obtain ⟨value, _, hmem⟩ := List.mem_flatMap.1 hpiece
                          exact sound_messagePieces value piece hmem) hcharge hprint)

end Steps

/-! ### What the blocks take -/

section Sizes

variable {isWord : Char → Bool} {payloads : FileId → Option String} {db : Db}
  {depth : ℕ} {includeMessages : Bool} {fuel : ℕ}
  {stack : List (SummaryId × ℕ)} {seen : List SummaryId}

/-- What holds of every kind of block holds of the whole walk. -/
theorem walkPieces_forall {P : Piece → Prop}
    (hnode : ∀ row ∈ db.summaries, ∀ level frontier, P (nodePiece row level frontier))
    (hmessage : ∀ row, P (messagePiece row)) (hmention : ∀ id, P (mentionPiece payloads id)) :
    ∀ piece ∈ walkPieces isWord payloads db depth includeMessages fuel stack seen,
      P piece := by
  induction fuel generalizing stack seen with
  | zero =>
      cases stack with
      | nil => simp [walkPieces]
      | cons entry stack => simp [walkPieces]
  | succ fuel ih =>
      cases stack with
      | nil => simp [walkPieces]
      | cons entry stack =>
          obtain ⟨id, level⟩ := entry
          cases hrow : db.findSummary id with
          | none => simp [walkPieces, hrow]
          | some row =>
              have hmem := (Db.mem_of_findSummary hrow).1
              simp only [walkPieces, hrow]
              apply List.forall_mem_cons.2 ⟨hnode row hmem level stack.length, ?_⟩
              by_cases hdeep : depth ≤ level
              · rw [if_pos hdeep]
                exact ih
              rw [if_neg hdeep]
              cases row.kind with
              | condensed => exact ih
              | leaf =>
                  apply List.forall_mem_append.2 ⟨?_, ih⟩
                  intro piece hpiece
                  cases includeMessages with
                  | false => cases hpiece
                  | true =>
                      obtain ⟨value, _, hmem⟩ := List.mem_flatMap.1 hpiece
                      rcases List.mem_cons.1 hmem with rfl | hmem
                      · exact hmessage value
                      · obtain ⟨file, _, rfl⟩ := List.mem_map.1 hmem
                        exact hmention file

theorem sound_walkPieces (hpriced : SummariesPriced db) :
    ∀ piece ∈ walkPieces isWord payloads db depth includeMessages fuel stack seen,
      piece.Sound :=
  walkPieces_forall (fun _ hrow => sound_nodePiece hpriced hrow) sound_messagePiece
    sound_mentionPiece

theorem four_mul_estimateTokens_le (text : String) :
    4 * estimateTokens text ≤ text.utf8ByteSize := by
  rw [estimateTokens, estimateTokensFromChars]
  omega

theorem over_nodePiece (hpriced : SummariesPriced db) {row : SummaryRow}
    (hrow : row ∈ db.summaries) (level frontier : ℕ) :
    4 * (nodePiece row level frontier).charge + 28 ≤
      (nodePiece row level frontier).text.utf8ByteSize := by
  have hopen : " (kind=".utf8ByteSize = 7 := by decide
  have hdepth : ", depth=".utf8ByteSize = 8 := by decide
  have hlevel : ", level=".utf8ByteSize = 8 := by decide
  have hclose : ")\n".utf8ByteSize = 2 := by decide
  have hstart : "## ".utf8ByteSize = 3 := by decide
  have hcontent := four_mul_estimateTokens_le row.content
  change 4 * row.tokenCount + 28 ≤ (nodeText row level).utf8ByteSize
  rw [hpriced row hrow]
  simp only [nodeText, String.utf8ByteSize_append, hopen, hdepth, hlevel, hclose, hstart]
  generalize "\n\n".utf8ByteSize = ending
  omega

theorem size_block (number role content : String) :
    ("### message_id=" ++ number ++ " role=" ++ role ++ "\n" ++ content ++
        "\n\n").utf8ByteSize =
      number.utf8ByteSize + role.utf8ByteSize + content.utf8ByteSize + 24 := by
  have hstart : "### message_id=".utf8ByteSize = 15 := by decide
  have hrole : " role=".utf8ByteSize = 6 := by decide
  have hline : "\n".utf8ByteSize = 1 := by decide
  have hend : "\n\n".utf8ByteSize = 2 := by decide
  simp only [String.utf8ByteSize_append, hstart, hrole, hline, hend]
  omega

theorem over_messagePiece (row : MessageRow) :
    4 * (messagePiece row).charge + 24 ≤ (messagePiece row).text.utf8ByteSize := by
  have hcontent := four_mul_estimateTokens_le row.content
  have hsize := size_block (toString row.messageId) (roleText row.role) row.content
  calc
    4 * (messagePiece row).charge + 24 ≤ row.content.utf8ByteSize + 24 :=
      Nat.add_le_add_right hcontent 24
    _ ≤ (toString row.messageId).utf8ByteSize + (roleText row.role).utf8ByteSize +
          row.content.utf8ByteSize + 24 := Nat.add_le_add_right (Nat.le_add_left _ _) 24
    _ = (messagePiece row).text.utf8ByteSize := hsize.symm

theorem over_mentionPiece (id : FileId) :
    4 * (mentionPiece payloads id).charge + 24 ≤
      (mentionPiece payloads id).text.utf8ByteSize := by
  have hnote : ": payload unavailable (No such file or directory (os error 2))\n\n".utf8ByteSize =
      64 := by decide
  have hhead : " (externalized payload)\n".utf8ByteSize = 24 := by decide
  unfold mentionPiece
  cases payloads id with
  | none =>
      simp only [unavailableText, String.utf8ByteSize_append, hnote]
      omega
  | some payload =>
      have hcontent := four_mul_estimateTokens_le payload
      simp only [payloadText, String.utf8ByteSize_append, hhead]
      generalize "### ".utf8ByteSize = start
      generalize "\n\n".utf8ByteSize = ending
      omega

/-- Every block takes at least 24 bytes that it is not charged for. -/
theorem over_walkPieces (hpriced : SummariesPriced db) :
    ∀ piece ∈ walkPieces isWord payloads db depth includeMessages fuel stack seen,
      4 * piece.charge + 24 ≤ piece.text.utf8ByteSize := by
  apply walkPieces_forall
  · intro row hrow level frontier
    have hover := over_nodePiece hpriced hrow level frontier
    omega
  · exact over_messagePiece
  · exact over_mentionPiece

/-- A block fits where its charge and its extra bytes are left. -/
theorem fits_walkPieces (extra : ℕ) :
    ∀ piece ∈ walkPieces isWord payloads db depth includeMessages fuel stack seen,
      piece.text.utf8ByteSize ≤ 4 * piece.charge + extra → piece.FitsWith extra := by
  have hblock : ∀ {text : String} {charge cap used : ℕ},
      text.utf8ByteSize ≤ 4 * charge + extra → used + charge + extra ≤ cap →
        used + estimateTokens text ≤ cap := by
    intro text charge cap used htext hcap
    have hsize := four_mul_estimateTokens_le text
    omega
  apply walkPieces_forall
  · intro row _ level frontier htext cap used hcap
    exact decide_eq_true (hblock htext hcap)
  · intro row htext cap used hcap
    exact decide_eq_true (hblock htext hcap)
  · intro id htext cap used hcap
    unfold mentionPiece at htext hcap ⊢
    cases hpayload : payloads id with
    | none => rfl
    | some payload =>
        simp only [hpayload] at htext hcap
        have hpart : payload.utf8ByteSize ≤ (payloadText id payload).utf8ByteSize :=
          Text.Includes.size_le ⟨_, "\n\n", rfl⟩
        exact decide_eq_true (by omega)

theorem monotone_walkPieces :
    ∀ piece ∈ walkPieces isWord payloads db depth includeMessages fuel stack seen,
      piece.Monotone := by
  apply walkPieces_forall
  · intro row _ level frontier cap higher used hcap hfits
    exact decide_eq_true ((of_decide_eq_true hfits).trans hcap)
  · intro row cap higher used hcap hfits
    exact decide_eq_true ((of_decide_eq_true hfits).trans hcap)
  · intro id cap higher used hcap hfits
    unfold mentionPiece at hfits ⊢
    cases hpayload : payloads id with
    | none => rfl
    | some payload =>
        simp only [hpayload, decide_eq_true_eq] at hfits ⊢
        omega

end Sizes

/-! ### Requests -/

section Requests

variable {isWord : Char → Bool} {request : Request} {cap extra slack : ℕ}

/-- What the reply to a request of a known root prints. -/
theorem reply_print (hdb : request.db.Consistent) (hpriced : SummariesPriced request.db)
    (hknown : request.Known) (hcap : cap < UInt32.size) :
    request.reply isWord cap =
      some (returned (print cap (request.blocks isWord) ⟨"", 0⟩)) := by
  have hexists : request.db.summaries.any (fun row => row.summaryId == request.root &&
      row.conversationId == request.conversation) = true := hknown
  rw [Request.reply, expand, if_pos hexists]
  apply expandLoop_print hdb hpriced hcap ?_ ⟨rfl, rfl⟩ (Nat.zero_le cap)
  constructor
  · intro entry hentry
    rw [List.mem_singleton.1 hentry]
    obtain ⟨row, hrow, hsame⟩ := List.any_eq_true.1 hknown
    rw [Bool.and_eq_true, beq_iff_eq] at hsame
    refine ⟨row, ?_⟩
    rw [← hsame.1]
    exact hdb.findSummary_eq hrow
  · have hcard := List.toFinset_card_le
      (request.db.summaryParents.map SummaryParent.summaryId)
    rw [List.length_map] at hcard
    have hdiff : ((request.db.summaryParents.map SummaryParent.summaryId).toFinset \
        [request.root].toFinset).card ≤ _ := Finset.card_le_card Finset.sdiff_subset
    rw [List.length_singleton]
    omega

theorem replyText_returned (printed : Except String Printed) :
    replyText (some (returned printed)) = some (resultText printed) := by
  cases printed with
  | ok printed => rfl
  | error text => rfl

/-- The reply stays within the cap but for the extra bytes of the blocks that were
affordable. -/
theorem reply_within (hdb : request.db.Consistent) (hpriced : SummariesPriced request.db)
    (hknown : request.Known) (hcap : cap < UInt32.size)
    (hwithin : ∀ piece ∈ request.blocks isWord, piece.Within extra cap) :
    ∃ text part, replyText (request.reply isWord cap) = some text ∧
      part <+: request.blocks isWord ∧ Affordable cap 0 part ∧
      estimateTokens text ≤ cap + extra * (part.length + 1) := by
  have hsound : ∀ piece ∈ request.blocks isWord, piece.Sound := sound_walkPieces hpriced
  have hstart : (⟨"", 0⟩ : Printed).used ≤ cap := Nat.zero_le cap
  obtain ⟨part, hpart, haffordable, hsize⟩ := size_print hsound hwithin hstart
  have hfour := four_mul_estimateTokens_le
    (resultText (print cap (request.blocks isWord) ⟨"", 0⟩))
  rw [reply_print hdb hpriced hknown hcap, replyText_returned]
  refine ⟨_, part, rfl, hpart, haffordable, ?_⟩
  change _ ≤ 0 + 4 * cap + extra * (part.length + 1) at hsize
  generalize extra * (part.length + 1) = more at hsize ⊢
  omega

/-- An affordable part is in the reply, with the bytes that none of its blocks is
charged for. -/
theorem affordable_le (hdb : request.db.Consistent) (hpriced : SummariesPriced request.db)
    (hknown : request.Known) (hcap : cap < UInt32.size) {part : List Piece}
    (hpart : part <+: request.blocks isWord) (haffordable : Affordable cap 0 part) :
    ∃ text, replyText (request.reply isWord cap) = some text ∧
      totalCharge part + 6 * part.length ≤ estimateTokens text := by
  have hstart : Affordable cap (⟨"", 0⟩ : Printed).used part := haffordable
  have hprint := size_le_print hpart hstart
  have hover : ∀ piece ∈ request.blocks isWord,
      4 * piece.charge + 24 ≤ piece.text.utf8ByteSize := over_walkPieces hpriced
  have hsize := size_totalText fun piece hpiece => hover piece (hpart.subset hpiece)
  rw [reply_print hdb hpriced hknown hcap, replyText_returned]
  refine ⟨_, rfl, ?_⟩
  rw [estimateTokens, estimateTokensFromChars]
  change 0 + _ ≤ _ at hprint
  omega

end Requests

end Kitaebot.Lcm.Recall
