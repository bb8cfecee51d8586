import Kitaebot.Context.Stats
import Kitaebot.Core.Correlation

/-!
# What the statistics charge to which call

The queue of calls is one for all sessions, and nothing takes a call out of it but
a result.  So a call whose result never came, as when a turn was cancelled while
its tools ran, shifts every later result by one call, over the ends of sessions.
-/

namespace Kitaebot.Context.Stats

open Kitaebot.Correlation
open Kitaebot.Run

/-! ### The sessions as a log -/

/-- The result of a call, as a tool message has it. -/
structure CallResult where
  callId : String
  content : String
  deriving DecidableEq, Repr

/-- A result fits the call that it names. -/
def Names (call : ToolCall) (result : CallResult) : Prop := call.id = result.callId

instance (call : ToolCall) (result : CallResult) : Decidable (Names call result) :=
  inferInstanceAs (Decidable (_ = _))

/-- What the statistics read of a message. -/
def event : Message → Option (Event ToolCall CallResult)
  | .toolCalls _ calls => some (.ask calls)
  | .tool callId content => some (.reply ⟨callId, content⟩)
  | _ => none

/-- A session is a section of the log. -/
def part (session : List Message) : List (Event ToolCall CallResult) :=
  session.filterMap event

/-- Every tool message of the sessions, in this order, is charged to the call with
its id in the last tool-call message before it in its session, and to none if that
has no such call. -/
def Attributed (sessions : List (List Message)) : Prop :=
  ReadRightly Names (sessions.map part)

/-- The results of a tool-call message come before the next one, in the order of
its calls, and those beyond the calls name none of them; and where results are
missing, no result follows, in that session or in another. -/
def ResultsSettled (sessions : List (List Message)) : Prop :=
  Settled Names (sessions.map part)

/-! ### The queue -/

section Queue

variable (parse : String → Option Json.Value)

/-- The statistics keep the queue that matches replies to requests. -/
theorem foldl_step (messages : List Message) (acc : Acc)
    (state : State ToolCall)
    (hpending : acc.pending = state.queue.map (callInfo parse ·.request)) :
    (messages.foldl (Acc.step parse) acc).counts =
        (collect step charge state (part messages)).foldl
          (fun counts charged =>
            counts.charge (callInfo parse charged.1) charged.2.content) acc.counts ∧
      (messages.foldl (Acc.step parse) acc).pending =
        (run step state (part messages)).queue.map (callInfo parse ·.request) := by
  induction messages generalizing acc state with
  | nil => exact ⟨rfl, hpending⟩
  | cons message messages ih =>
      cases message with
      | toolCalls content calls =>
          obtain ⟨hcounts, hnext⟩ := ih (acc.step parse (.toolCalls content calls))
            (step state (.ask calls : Event ToolCall CallResult)) (by
              rw [Acc.step, step, hpending, List.map_append, List.map_map]
              rfl)
          exact ⟨hcounts, hnext⟩
      | tool callId content =>
          let reply : Event ToolCall CallResult := .reply ⟨callId, content⟩
          have hpart : part (.tool callId content :: messages) =
              reply :: part messages := rfl
          rw [hpart, List.foldl_cons, collect_cons, List.foldl_append, run_cons]
          cases hqueue : state.queue with
          | nil =>
              have hacc : acc.step parse (.tool callId content) = acc := by
                rw [Acc.step, hpending, hqueue]
                rfl
              have hcharge : charge state reply = [] := by
                rw [charge, hqueue]
                rfl
              have hstep : step state reply = state := by
                rw [step, hqueue, List.tail_nil, ← hqueue]
              rw [hacc, hcharge, hstep]
              exact ih acc state hpending
          | cons waiting queue =>
              have hacc : acc.step parse (.tool callId content) =
                  ⟨queue.map (callInfo parse ·.request),
                    acc.counts.charge (callInfo parse waiting.request) content⟩ := by
                rw [Acc.step, hpending, hqueue]
                rfl
              have hcharge : charge state reply =
                  [(waiting.request, ⟨callId, content⟩)] := by
                rw [charge, hqueue]
                rfl
              rw [hacc, hcharge]
              refine ih _ (step state reply) ?_
              rw [step, hqueue]
              rfl
      | assistant content => exact ih acc state hpending
      | system content => exact ih acc state hpending
      | user content => exact ih acc state hpending

theorem foldl_flatten (sessions : List (List Message)) (acc : Acc)
    (state : State ToolCall)
    (hpending : acc.pending = state.queue.map (callInfo parse ·.request)) :
    (sessions.flatten.foldl (Acc.step parse) acc).counts =
      (collect step charge state (log (sessions.map part))).foldl
        (fun counts charged =>
          counts.charge (callInfo parse charged.1) charged.2.content) acc.counts := by
  induction sessions generalizing acc state with
  | nil => rfl
  | cons session sessions ih =>
      have hlog : log ((session :: sessions).map part) =
          (.start :: part session) ++ log (sessions.map part) := rfl
      have hstart : collect step charge state (.start :: part session) =
          collect step charge (step state (.start : Event ToolCall CallResult))
            (part session) := rfl
      obtain ⟨hcounts, hnext⟩ := foldl_step parse session acc
        (step state (.start : Event ToolCall CallResult)) hpending
      rw [hlog, collect_append, hstart, List.flatten_cons, List.foldl_append,
        List.foldl_append, ← hcounts]
      exact ih _ _ hnext

/-- A report counts what the results are charged to. -/
theorem analyze_counts (sessions : List (List Message)) :
    (analyze parse sessions).counts =
      (charges (sessions.map part)).foldl
        (fun counts charged =>
          counts.charge (callInfo parse charged.1) charged.2.content) .empty :=
  foldl_flatten parse sessions ⟨[], .empty⟩ initial rfl

end Queue

/-! ### Counting in any order -/

section Order

variable {Key : Type} [DecidableEq Key]

theorem accumulate_comm (map : String → Option ToolStats) (key other : String)
    (bytes otherBytes : ℕ) :
    accumulate (accumulate map key bytes) other otherBytes =
      accumulate (accumulate map other otherBytes) key bytes := by
  funext wanted
  by_cases hsame : key = other
  · subst hsame
    simp only [accumulate, Function.update_self, Option.getD_some, Nat.add_right_comm]
    by_cases hwanted : wanted = key
    · subst hwanted
      rw [Function.update_self, Function.update_self, Nat.add_right_comm]
    · rw [Function.update_of_ne hwanted, Function.update_of_ne hwanted,
        Function.update_of_ne hwanted, Function.update_of_ne hwanted]
  · simp only [accumulate, Function.update_of_ne hsame,
      Function.update_of_ne (Ne.symm hsame)]
    rw [Function.update_comm (Ne.symm hsame)]

theorem increment_comm (map : Key → Option ℕ) (key other : Key) :
    increment (increment map key) other = increment (increment map other) key := by
  by_cases hsame : key = other
  · rw [hsame]
  · simp only [increment, Function.update_of_ne hsame,
      Function.update_of_ne (Ne.symm hsame)]
    rw [Function.update_comm (Ne.symm hsame)]

end Order

/-- The blocked command that a result is counted under. -/
def blockedKey (info : CallInfo) (content : String) : Option String :=
  if classifyFailure content = some .blocked then info.execFullCmd else none

/-- The tool error that a result is counted under. -/
def errorKey (info : CallInfo) (content : String) : Option ToolErrorKey :=
  if classifyFailure content = some .blocked ∧ info.execFullCmd.isSome then none
  else (classifyFailure content).map fun kind => ⟨info.toolName, kind⟩

/-- The update under a key, if there is one. -/
def updateAt {Key Map : Type} (update : Map → Key → Map) (map : Map) :
    Option Key → Map
  | none => map
  | some key => update map key

theorem updateAt_comm {Key Map : Type} {first second : Map → Key → Map}
    (hcomm : ∀ map key other, second (first map key) other =
      first (second map other) key) (map : Map) (key other : Option Key) :
    updateAt second (updateAt first map key) other =
      updateAt first (updateAt second map other) key := by
  cases key with
  | none => rfl
  | some key =>
      cases other with
      | none => rfl
      | some other => exact hcomm map key other

/-- A result is counted in each table on its own. -/
theorem charge_eq (counts : Counts) (info : CallInfo) (content : String) :
    counts.charge info content =
      { byTool := accumulate counts.byTool info.toolName content.utf8ByteSize
        byExecCmd := updateAt (accumulate · · content.utf8ByteSize)
          counts.byExecCmd info.execCmd
        blockedCmds := updateAt increment counts.blockedCmds
          (blockedKey info content)
        toolErrors := updateAt increment counts.toolErrors
          (errorKey info content) } := by
  obtain ⟨tool, exec, full⟩ := info
  rw [Counts.charge, blockedKey, errorKey]
  cases classifyFailure content with
  | none => cases exec <;> rfl
  | some kind =>
      cases exec with
      | none =>
          cases full with
          | none => cases kind <;> simp [Counts.fail, updateAt]
          | some full => cases kind <;> simp [Counts.fail, updateAt]
      | some exec =>
          cases full with
          | none => cases kind <;> simp [Counts.fail, updateAt]
          | some full => cases kind <;> simp [Counts.fail, updateAt]

/-- Results may be counted in any order. -/
theorem charge_comm (counts : Counts) (info other : CallInfo)
    (content otherContent : String) :
    (counts.charge info content).charge other otherContent =
      (counts.charge other otherContent).charge info content := by
  simp only [charge_eq, Counts.mk.injEq]
  refine ⟨accumulate_comm .., ?_, ?_, ?_⟩
  · exact updateAt_comm (fun map key other => accumulate_comm map key other _ _) ..
  · exact updateAt_comm (fun map key other => increment_comm map key other) ..
  · exact updateAt_comm (fun map key other => increment_comm map key other) ..

/-! ### Attribution -/

/-- Results are charged to their calls in every order of the sessions exactly when
they are settled, and then the report is the same in every order. -/
theorem attribution_iff (parse : String → Option Json.Value)
    (sessions : List (List Message)) :
    (∀ order, order.Perm sessions →
        Attributed order ∧ analyze parse order = analyze parse sessions) ↔
      ResultsSettled sessions := by
  constructor
  · intro hall
    refine settled_of_readRightly (hall sessions (.refl _)).1 ?_
    rw [← List.map_reverse]
    exact (hall sessions.reverse (List.reverse_perm _)).1
  · intro hsettled order horder
    have hparts := horder.map part
    refine ⟨hsettled.readRightly hparts, ?_⟩
    have hcounts : (analyze parse order).counts = (analyze parse sessions).counts := by
      rw [analyze_counts, analyze_counts]
      exact (hsettled.charges_perm hparts).foldl_eq' (fun first _ second _ counts =>
        charge_comm counts _ _ _ _) _
    rw [analyze, analyze, Report.mk.injEq]
    exact ⟨horder.length_eq, hcounts⟩

theorem grep_valid : isValidToolName "lcm_grep" = true := by decide

theorem read_valid : isValidToolName "file_read" = true := by decide

def grepCall : ToolCall := ⟨"call_1", ⟨⟨"lcm_grep", grep_valid⟩, ""⟩⟩

def readCall : ToolCall := ⟨"call_2", ⟨⟨"file_read", read_valid⟩, ""⟩⟩

/-- A turn that was cancelled while its search ran, and the next one. -/
def cancelledSession : List Message :=
  [.user "look", .toolCalls "" [grepCall], .user "read it",
    .toolCalls "" [readCall], .tool "call_2" "hello", .assistant "done"]

/-- The text of the file is counted as the output of the search. -/
theorem cancelled_call_takes_result :
    ¬ Attributed [cancelledSession] ∧
      (analyze (fun _ => none) [cancelledSession]).counts.byTool "lcm_grep" =
        some ⟨1, 5⟩ ∧
      (analyze (fun _ => none) [cancelledSession]).counts.byTool "file_read" =
        none := by
  refine ⟨fun hattributed => ?_, by decide, by decide⟩
  have hrounds : ([cancelledSession].map part).flatMap rounds =
      [⟨[], []⟩, ⟨[grepCall], []⟩, ⟨[readCall], [⟨"call_2", "hello"⟩]⟩] := rfl
  have hclear := (readRightly_iff.1 hattributed).clear
  rw [hrounds, List.pairwise_cons, List.pairwise_cons] at hclear
  rcases hclear.2.1 _ (List.mem_singleton_self _) with hcomplete | hsilent
  · exact absurd hcomplete (Nat.not_succ_le_zero 0)
  · cases hsilent

end Kitaebot.Context.Stats
