import Mathlib.Data.List.Induction
import Mathlib.Data.List.Nodup
import Kitaebot.Types

/-!
# Tool rounds

A provider accepts a message list when every tool-call message is followed at
once by one result per call, in call order.  The list is read left to right;
the state is the list of calls still waiting for their result.
-/

namespace Kitaebot

namespace Message

def isTool : Message → Bool
  | tool _ _ => true
  | _ => false

/-- A tool-call message or a tool result. -/
def inRound : Message → Bool
  | tool _ _ => true
  | toolCalls _ _ => true
  | _ => false

end Message

/-- The calls waiting after one more message; `none` when it may not follow. -/
def advance : List String → Message → Option (List String)
  | [], .toolCalls _ calls => some (calls.map ToolCall.id)
  | [], .tool _ _ => none
  | [], _ => some []
  | id :: pending, .tool callId _ => if callId = id then some pending else none
  | _ :: _, _ => none

/-- The calls waiting after a list of messages. -/
def settle : List String → List Message → Option (List String)
  | pending, [] => some pending
  | pending, message :: messages =>
      (advance pending message).bind fun pending => settle pending messages

/-- Every tool-call message is followed at once by its results, in order. -/
def Rounds (messages : List Message) : Prop := settle [] messages = some []

instance (messages : List Message) : Decidable (Rounds messages) :=
  inferInstanceAs (Decidable (settle [] messages = some []))

/-- Every tool result has its call in an earlier message, and every call has a
result. -/
structure Paired (messages : List Message) : Prop where
  called : ∀ before callId content after,
    messages = before ++ .tool callId content :: after →
      ∃ text calls, .toolCalls text calls ∈ before ∧
        callId ∈ calls.map ToolCall.id
  answered : ∀ text calls, .toolCalls text calls ∈ messages →
    ∀ call ∈ calls, ∃ content, .tool call.id content ∈ messages

theorem settle_append (pending : List String) (first second : List Message) :
    settle pending (first ++ second) =
      (settle pending first).bind fun pending => settle pending second := by
  induction first generalizing pending with
  | nil => rfl
  | cons message first ih =>
      rw [List.cons_append, settle, settle]
      cases advance pending message with
      | none => rfl
      | some pending => exact ih pending

theorem Rounds.append {first second : List Message} (hfirst : Rounds first)
    (hsecond : Rounds second) : Rounds (first ++ second) := by
  rw [Rounds] at hfirst hsecond
  rw [Rounds, settle_append, hfirst, Option.bind_some, hsecond]

theorem advance_cons {id : String} {pending next : List String}
    {message : Message} (hnext : advance (id :: pending) message = some next) :
    ∃ content, message = .tool id content ∧ next = pending := by
  cases message with
  | tool callId content =>
      rw [advance] at hnext
      split at hnext
      · next hid =>
          rw [hid]
          exact ⟨content, rfl, (Option.some.inj hnext).symm⟩
      · cases hnext
  | assistant content => cases hnext
  | system content => cases hnext
  | toolCalls content calls => cases hnext
  | user content => cases hnext

/-- A list of rounds may be cut before any message that is not a result. -/
theorem Rounds.cut {first second : List Message}
    (hrounds : Rounds (first ++ second))
    (hhead : ∀ message ∈ second.head?, message.isTool = false) :
    Rounds first ∧ Rounds second := by
  rw [Rounds, settle_append] at hrounds
  obtain ⟨pending, hfirst, hsecond⟩ := Option.bind_eq_some_iff.mp hrounds
  cases pending with
  | nil => exact ⟨hfirst, hsecond⟩
  | cons id pending =>
      cases second with
      | nil => cases hsecond
      | cons message second =>
          obtain ⟨next, hnext, _⟩ := Option.bind_eq_some_iff.mp hsecond
          obtain ⟨content, rfl, _⟩ := advance_cons hnext
          exact absurd (hhead _ rfl) (by simp [Message.isTool])

theorem rounds_of_plain {messages : List Message}
    (hplain : ∀ message ∈ messages, message.inRound = false) :
    Rounds messages := by
  induction messages with
  | nil => rfl
  | cons message messages ih =>
      have htail := ih fun other hother =>
        hplain other (List.mem_cons_of_mem _ hother)
      have hhead := hplain message List.mem_cons_self
      cases message with
      | tool callId content => cases hhead
      | toolCalls content calls => cases hhead
      | assistant content => exact htail
      | system content => exact htail
      | user content => exact htail

/-- A result that may follow answers a waiting call or one made before it. -/
theorem called_of_settle {pending rest : List String}
    {before after : List Message} {callId content : String}
    (hsettle : settle pending (before ++ .tool callId content :: after) =
      some rest) :
    callId ∈ pending ∨ ∃ text calls, .toolCalls text calls ∈ before ∧
      callId ∈ calls.map ToolCall.id := by
  induction before generalizing pending with
  | nil =>
      obtain ⟨next, hnext, _⟩ := Option.bind_eq_some_iff.mp hsettle
      cases pending with
      | nil => cases hnext
      | cons id pending =>
          obtain ⟨_, hmessage, _⟩ := advance_cons hnext
          cases hmessage
          exact .inl List.mem_cons_self
  | cons message before ih =>
      obtain ⟨next, hnext, hrest⟩ := Option.bind_eq_some_iff.mp hsettle
      rcases ih hrest with hwaiting | ⟨text, calls, hmem, hid⟩
      · cases pending with
        | cons id pending =>
            obtain ⟨_, _, rfl⟩ := advance_cons hnext
            exact .inl (List.mem_cons_of_mem _ hwaiting)
        | nil =>
            cases message with
            | toolCalls text calls =>
                cases hnext
                exact .inr ⟨text, calls, List.mem_cons_self, hwaiting⟩
            | tool callId content => cases hnext
            | assistant content => cases hnext; cases hwaiting
            | system content => cases hnext; cases hwaiting
            | user content => cases hnext; cases hwaiting
      · exact .inr ⟨text, calls, List.mem_cons_of_mem _ hmem, hid⟩

/-- When nothing waits at the end, every call was answered. -/
theorem answered_of_settle {pending : List String} {messages : List Message}
    (hsettle : settle pending messages = some []) :
    (∀ id ∈ pending, ∃ content, .tool id content ∈ messages) ∧
      ∀ text calls, .toolCalls text calls ∈ messages →
        ∀ call ∈ calls, ∃ content, .tool call.id content ∈ messages := by
  induction messages generalizing pending with
  | nil =>
      cases hsettle
      exact ⟨by simp, by simp⟩
  | cons message messages ih =>
      obtain ⟨next, hnext, hrest⟩ := Option.bind_eq_some_iff.mp hsettle
      obtain ⟨hwaiting, hcalls⟩ := ih hrest
      have hlater : ∀ text calls, .toolCalls text calls ∈ messages →
          ∀ call ∈ calls, ∃ content, .tool call.id content ∈
            message :: messages := by
        intro text calls hmem call hcall
        obtain ⟨content, hcontent⟩ := hcalls text calls hmem call hcall
        exact ⟨content, List.mem_cons_of_mem _ hcontent⟩
      cases pending with
      | cons id pending =>
          obtain ⟨content, rfl, rfl⟩ := advance_cons hnext
          refine ⟨?_, ?_⟩
          · intro other hother
            rcases List.mem_cons.mp hother with rfl | hpending
            · exact ⟨content, List.mem_cons_self⟩
            · obtain ⟨found, hfound⟩ := hwaiting other hpending
              exact ⟨found, List.mem_cons_of_mem _ hfound⟩
          · intro text calls hmem
            rcases List.mem_cons.mp hmem with hhead | hmem
            · cases hhead
            · exact hlater text calls hmem
      | nil =>
          refine ⟨by simp, ?_⟩
          intro text calls hmem call hcall
          rcases List.mem_cons.mp hmem with rfl | hmem
          · cases hnext
            obtain ⟨content, hcontent⟩ :=
              hwaiting call.id (List.mem_map.mpr ⟨call, hcall, rfl⟩)
            exact ⟨content, List.mem_cons_of_mem _ hcontent⟩
          · exact hlater text calls hmem call hcall

theorem Rounds.paired {messages : List Message} (hrounds : Rounds messages) :
    Paired messages where
  called := by
    rintro before callId content after rfl
    rcases called_of_settle hrounds with hwaiting | hcalled
    · cases hwaiting
    · exact hcalled
  answered := (answered_of_settle hrounds).2

/-- Pairing only looks at calls and results. -/
theorem paired_of_filter {messages : List Message}
    (hpaired : Paired (messages.filter Message.inRound)) : Paired messages where
  called := by
    rintro before callId content after rfl
    rw [List.filter_append, List.filter_cons_of_pos rfl] at hpaired
    obtain ⟨text, calls, hmem, hid⟩ := hpaired.called _ _ _ _ rfl
    exact ⟨text, calls, (List.mem_filter.mp hmem).1, hid⟩
  answered := by
    intro text calls hmem call hcall
    obtain ⟨content, hcontent⟩ := hpaired.answered text calls
      (List.mem_filter.mpr ⟨hmem, rfl⟩) call hcall
    exact ⟨content, (List.mem_filter.mp hcontent).1⟩

theorem Paired.filter {messages : List Message} (hpaired : Paired messages) :
    Paired (messages.filter Message.inRound) where
  called := by
    intro before callId content after hsplit
    obtain ⟨first, rest, rfl, rfl, hrest⟩ :=
      List.filter_eq_append_iff.mp hsplit
    obtain ⟨skipped, last, rfl, hskipped, _, rfl⟩ :=
      List.filter_eq_cons_iff.mp hrest
    obtain ⟨text, calls, hmem, hid⟩ :=
      hpaired.called (first ++ skipped) callId content last (by simp)
    refine ⟨text, calls, ?_, hid⟩
    rcases List.mem_append.mp hmem with hfirst | hskip
    · exact List.mem_filter.mpr ⟨hfirst, rfl⟩
    · exact absurd rfl (hskipped _ hskip)
  answered := by
    intro text calls hmem call hcall
    obtain ⟨content, hcontent⟩ :=
      hpaired.answered text calls (List.mem_filter.mp hmem).1 call hcall
    exact ⟨content, List.mem_filter.mpr ⟨hcontent, rfl⟩⟩

/-! ## Unanswered calls -/

/-- The unanswered calls of the last tool-call message, as long as only results
follow it. -/
def track (unanswered : List String) : Message → List String
  | .toolCalls _ calls => calls.map ToolCall.id
  | .tool callId _ => unanswered.filter fun id => !id == callId
  | _ => []

def unanswered (messages : List Message) : List String :=
  messages.foldl track []

/-- A result may be added only for an unanswered call, and the calls of one
message have distinct ids. -/
def MayFollow (unanswered : List String) : Message → Prop
  | .tool callId _ => callId ∈ unanswered
  | .toolCalls _ calls => (calls.map ToolCall.id).Nodup
  | _ => True

instance (unanswered : List String) :
    (message : Message) → Decidable (MayFollow unanswered message)
  | .tool callId _ => inferInstanceAs (Decidable (callId ∈ unanswered))
  | .toolCalls _ calls =>
      inferInstanceAs (Decidable (calls.map ToolCall.id).Nodup)
  | .assistant _ => inferInstanceAs (Decidable True)
  | .system _ => inferInstanceAs (Decidable True)
  | .user _ => inferInstanceAs (Decidable True)

/-- The message is a result for the call. -/
def Message.answers (callId : String) : Message → Bool
  | tool id _ => id == callId
  | _ => false

/-- Every result has its call in an earlier message. -/
def Called (messages : List Message) : Prop :=
  ∀ before callId content after,
    messages = before ++ .tool callId content :: after →
      ∃ text calls, .toolCalls text calls ∈ before ∧
        callId ∈ calls.map ToolCall.id

/-- While only results follow the last tool-call message, each of its calls has
one result or is unanswered. -/
structure Answering (messages : List Message) : Prop where
  called : Called messages
  distinct : (unanswered messages).Nodup
  once : ∀ before text calls results,
    messages = before ++ .toolCalls text calls :: results →
    (∀ message ∈ results, message.isTool = true) →
    ∀ call ∈ calls, results.countP (Message.answers call.id) +
      (unanswered messages).count call.id = 1

@[simp]
theorem unanswered_concat (messages : List Message) (message : Message) :
    unanswered (messages ++ [message]) =
      track (unanswered messages) message := by
  simp [unanswered]

/-- Where one element of a list with one more element stands. -/
theorem concat_eq_split {Value : Type*} {values before after : List Value}
    {last value : Value}
    (hsplit : values ++ [last] = before ++ value :: after) :
    (after = [] ∧ values = before ∧ last = value) ∨
      ∃ front, after = front ++ [last] ∧ values = before ++ value :: front := by
  rcases List.eq_nil_or_concat' after with rfl | ⟨front, final, rfl⟩
  · obtain ⟨hvalues, hlast⟩ := List.append_inj' hsplit rfl
    exact .inl ⟨rfl, hvalues, List.singleton_inj.mp hlast⟩
  · rw [← List.cons_append, ← List.append_assoc] at hsplit
    obtain ⟨hvalues, hlast⟩ := List.append_inj' hsplit rfl
    rw [List.singleton_inj.mp hlast]
    exact .inr ⟨front, rfl, hvalues⟩

theorem mem_unanswered {messages : List Message} {id : String}
    (hid : id ∈ unanswered messages) :
    ∃ text calls, .toolCalls text calls ∈ messages ∧
      id ∈ calls.map ToolCall.id := by
  induction messages using List.reverseRecOn with
  | nil => cases hid
  | append_singleton messages message ih =>
      rw [unanswered_concat] at hid
      cases message with
      | toolCalls text calls => exact ⟨text, calls, by simp, hid⟩
      | tool callId content =>
          obtain ⟨text, calls, hmem, hcall⟩ := ih (List.mem_filter.mp hid).1
          exact ⟨text, calls, List.mem_append_left _ hmem, hcall⟩
      | assistant content => cases hid
      | system content => cases hid
      | user content => cases hid

theorem Called.concat {messages : List Message} (hcalled : Called messages)
    {message : Message} (hmay : MayFollow (unanswered messages) message) :
    Called (messages ++ [message]) := by
  intro before callId content after hsplit
  rcases concat_eq_split hsplit with ⟨rfl, rfl, rfl⟩ | ⟨front, rfl, hold⟩
  · exact mem_unanswered hmay
  · exact hcalled before callId content front hold

theorem track_nodup {waiting : List String} (hwaiting : waiting.Nodup)
    {message : Message} (hmay : MayFollow waiting message) :
    (track waiting message).Nodup := by
  cases message with
  | toolCalls text calls => exact hmay
  | tool callId content => exact hwaiting.filter _
  | assistant content => exact List.nodup_nil
  | system content => exact List.nodup_nil
  | user content => exact List.nodup_nil

theorem Answering.nil : Answering [] where
  called := by
    intro before callId content after hsplit
    simp at hsplit
  distinct := List.nodup_nil
  once := by
    intro before text calls results hsplit
    simp at hsplit

/-- One more message that may follow keeps the calls answered at most once. -/
theorem Answering.concat {messages : List Message} (hmessages : Answering messages)
    {message : Message} (hmay : MayFollow (unanswered messages) message) :
    Answering (messages ++ [message]) where
  called := hmessages.called.concat hmay
  distinct := by
    rw [unanswered_concat]
    exact track_nodup hmessages.distinct hmay
  once := by
    intro before text calls results hsplit hresults call hcall
    rw [unanswered_concat]
    rcases concat_eq_split hsplit with ⟨rfl, rfl, rfl⟩ | ⟨front, rfl, hold⟩
    · rw [List.countP_nil, track, Nat.zero_add]
      exact List.count_eq_one_of_mem hmay (List.mem_map.mpr ⟨call, hcall, rfl⟩)
    · have hlast := hresults message (by simp)
      have hfront := hmessages.once before text calls front hold
        (fun other hother => hresults other (List.mem_append_left _ hother))
        call hcall
      cases message with
      | tool callId content =>
          rw [track, List.countP_append]
          by_cases hid : call.id = callId
          · have hzero : ((unanswered messages).filter
                fun id => !id == callId).count call.id = 0 := by
              rw [List.count_eq_zero]
              intro hmem
              simpa [hid] using (List.mem_filter.mp hmem).2
            have hone : (unanswered messages).count call.id = 1 := by
              apply List.count_eq_one_of_mem hmessages.distinct
              rw [hid]
              exact hmay
            rw [hzero]
            simp only [List.countP_singleton, Message.answers, hid,
              beq_self_eq_true, if_true]
            rw [hid] at hfront hone
            omega
          · have hsame : ((unanswered messages).filter
                fun id => !id == callId).count call.id =
                  (unanswered messages).count call.id :=
              List.count_filter (by simpa using hid)
            rw [hsame]
            have hnot : ¬ callId = call.id := fun heq => hid heq.symm
            simpa [List.countP_singleton, Message.answers, hnot] using hfront
      | toolCalls text calls => cases hlast
      | assistant content => cases hlast
      | system content => cases hlast
      | user content => cases hlast

/-- Answering some of the unanswered calls, each once. -/
theorem Answering.answer {messages : List Message}
    (hmessages : Answering messages) (text : String) {ids : List String}
    (hids : ids.Nodup) (hsubset : ids ⊆ unanswered messages) :
    Answering (messages ++ ids.map fun id => .tool id text) ∧
      unanswered (messages ++ ids.map fun id => .tool id text) =
        (unanswered messages).filter fun id => !ids.contains id := by
  induction ids generalizing messages with
  | nil =>
      refine ⟨by simpa using hmessages, ?_⟩
      simp
  | cons id ids ih =>
      obtain ⟨hid, hids⟩ := List.nodup_cons.mp hids
      have hmay : MayFollow (unanswered messages) (.tool id text) :=
        hsubset List.mem_cons_self
      have hnext := hmessages.concat hmay
      have hrest : ids ⊆ unanswered (messages ++ [.tool id text]) := by
        intro other hother
        rw [unanswered_concat]
        refine List.mem_filter.mpr
          ⟨hsubset (List.mem_cons_of_mem _ hother), ?_⟩
        have hne : other ≠ id := fun heq => hid (heq ▸ hother)
        simpa using hne
      obtain ⟨hanswering, hleft⟩ := ih hnext hids hrest
      rw [List.append_assoc, List.singleton_append] at hanswering hleft
      refine ⟨hanswering, ?_⟩
      rw [List.map_cons, hleft, unanswered_concat, track, List.filter_filter]
      apply List.filter_congr
      intro other _
      rw [List.contains_cons, Bool.not_or, Bool.and_comm]

end Kitaebot
