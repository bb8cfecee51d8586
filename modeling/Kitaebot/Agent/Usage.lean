import Mathlib.Data.Rat.Defs
import Mathlib.Algebra.Ring.Rat
import Mathlib.Data.List.Induction
import Kitaebot.Core.Text
import Kitaebot.Types

/-!
# Draws and their usage

A chat request is drawn from the endpoint until a reply parses or the retry
policy gives up.  Every response the endpoint sends is a billed draw, whether or
not anything usable came back; a turn sums its draws.  Costs are exact
rationals, where the source has floating-point numbers.
-/

namespace Kitaebot.Agent

/-! ### What the endpoint sends -/

inductive ProviderError where
  | authentication
  | emptyResponse
  | invalidResponse (text : String)
  | malformedToolCall (name : String)
  | network (text : String)
  | serverError (text : String)
  | badRequest (text : String)
  | rateLimited
  | truncated
  deriving DecidableEq, Repr

namespace ProviderError

def display : ProviderError → String
  | authentication => "Authentication failed"
  | emptyResponse => "Provider returned an empty response"
  | invalidResponse text => "Invalid response: " ++ text
  | malformedToolCall name =>
      "Provider returned a tool call with a malformed name: " ++ reprStr name
  | network text => "Network error: " ++ text
  | serverError text => "Provider server error: " ++ text
  | badRequest text => "Provider rejected the request: " ++ text
  | rateLimited => "Rate limited"
  | truncated => "Provider response truncated at max_tokens before any content"

def isTransient : ProviderError → Bool
  | emptyResponse => true
  | malformedToolCall _ => true
  | network _ => true
  | rateLimited => true
  | serverError _ => true
  | _ => false

end ProviderError

structure Usage where
  promptTokens : UInt32
  completionTokens : UInt32
  /-- The cached tokens of the details, if the response has details. -/
  cachedTokens : Option UInt32
  cost : Option ℚ

structure ApiToolCall where
  id : String
  name : String
  arguments : String

structure Choice where
  content : Option String
  toolCalls : Option (List ApiToolCall)
  finishReason : Option String

structure ChatResponse where
  choices : List Choice
  usage : Option Usage
  provider : Option String

inductive Response where
  | text (content : String)
  | toolCalls (content : String) (calls : List ToolCall)
  deriving DecidableEq, Repr

/-- The text of a reply; tool calls nobody asked for are dropped. -/
def Response.content : Response → String
  | .text content => content
  | .toolCalls content _ => content

/-! ### One round trip -/

def intoToolCall (call : ApiToolCall) : Except ProviderError ToolCall :=
  match ToolName.parse call.name with
  | .ok name => .ok ⟨call.id, ⟨name, call.arguments⟩⟩
  | .error _ => .error (.malformedToolCall call.name)

def parseChoice (choice : Choice) : Except ProviderError Response :=
  let content := choice.content.getD ""
  let truncated := choice.finishReason = some "length"
  match choice.toolCalls with
  | some (call :: calls) =>
      ((call :: calls).mapM intoToolCall).map (Response.toolCalls content)
  | _ =>
      if Text.trim content = "" then
        .error (if truncated then .truncated else .emptyResponse)
      else if truncated then .ok (.text (content ++ "\n\n[truncated at max_tokens]"))
      else .ok (.text content)

def parseResponse (response : ChatResponse) : Except ProviderError Response :=
  match response.choices with
  | [] => .error (.invalidResponse "no choices in response")
  | choice :: _ => parseChoice choice

structure CallUsage where
  promptTokens : Option UInt32
  cachedTokens : Option UInt32
  provider : Option String
  completionTokens : UInt32
  cost : Option ℚ
  deriving DecidableEq

namespace CallUsage

def none : CallUsage := ⟨.none, .none, .none, 0, .none⟩

/-- The endpoint name is there even without usage. -/
def ofResponse (response : ChatResponse) : CallUsage :=
  let usage := match response.usage with
    | .none => CallUsage.none
    | some usage =>
        ⟨some usage.promptTokens, usage.cachedTokens, .none, usage.completionTokens,
          usage.cost⟩
  { usage with provider := response.provider }

end CallUsage

/-- A failed round trip and what was billed for it. -/
structure AttemptError where
  error : ProviderError
  usage : Option CallUsage

/-- One round trip, from what the client returned. -/
def attempt (sent : Except ProviderError ChatResponse) :
    Except AttemptError (Response × CallUsage) :=
  match sent with
  | .error error => .error ⟨error, none⟩
  | .ok response =>
      match parseResponse response with
      | .ok reply => .ok (reply, CallUsage.ofResponse response)
      | .error error => .error ⟨error, some (CallUsage.ofResponse response)⟩

/-- The draw of a round trip: whatever the endpoint answered is billed. -/
def draw (sent : Except ProviderError ChatResponse) : Option CallUsage :=
  match sent with
  | .error _ => none
  | .ok response => some (CallUsage.ofResponse response)

def draws (attempts : List (Except ProviderError ChatResponse)) : List CallUsage :=
  attempts.filterMap draw

/-! ### Retries -/

def maxRetries : ℕ := 3

def emptyRetries : ℕ := 2

/-- The seconds to wait before the next attempt. -/
def retryPolicy (error : ProviderError) (attempt : ℕ) : Option ℕ :=
  let most := if error = .emptyResponse then emptyRetries else maxRetries
  if error.isTransient = false ∨ most ≤ attempt then none
  else some ((if error = .rateLimited then 5 else 1) * 2 ^ attempt)

/-- No retry is granted after the last one. -/
theorem retryPolicy_maxRetries (error : ProviderError) :
    retryPolicy error maxRetries = none := by
  rw [retryPolicy]
  apply if_pos
  right
  split
  · exact Nat.le_succ emptyRetries
  · exact Nat.le_refl maxRetries

structure ChatOutcome where
  response : Response
  usage : CallUsage
  failed : List CallUsage

structure ChatError where
  error : ProviderError
  failed : List CallUsage

/-! ### The usage of a turn -/

structure TurnUsage where
  calls : UInt32
  promptTokens : UInt64
  cachedTokens : Option UInt64
  completionTokens : UInt64
  cost : Option ℚ
  provider : Option String
  deriving DecidableEq

namespace TurnUsage

def none : TurnUsage := ⟨0, 0, .none, 0, .none, .none⟩

/-- The sum of what was reported, if anything was. -/
def addReported {Value : Type*} [Add Value] [OfNat Value 0] :
    Option Value → Option Value → Option Value
  | .none, .none => .none
  | first, second => some (first.getD 0 + second.getD 0)

def addCall (usage : TurnUsage) (call : CallUsage) : TurnUsage where
  calls := usage.calls + 1
  promptTokens := match call.promptTokens with
    | .none => usage.promptTokens
    | some prompt => usage.promptTokens + prompt.toUInt64
  cachedTokens := match call.cachedTokens with
    | .none => usage.cachedTokens
    | some cached => some (usage.cachedTokens.getD 0 + cached.toUInt64)
  completionTokens := usage.completionTokens + call.completionTokens.toUInt64
  cost := match call.cost with
    | .none => usage.cost
    | some cost => some (usage.cost.getD 0 + cost)
  provider := call.provider.or usage.provider

def addTurn (usage other : TurnUsage) : TurnUsage where
  calls := usage.calls + other.calls
  promptTokens := usage.promptTokens + other.promptTokens
  cachedTokens := addReported usage.cachedTokens other.cachedTokens
  completionTokens := usage.completionTokens + other.completionTokens
  cost := addReported usage.cost other.cost
  provider := other.provider.or usage.provider

def addFailed (usage : TurnUsage) (failed : List CallUsage) : TurnUsage :=
  failed.foldl addCall usage

/-- The usage of a list of draws. -/
def ofDraws (calls : List CallUsage) : TurnUsage := none.addFailed calls

theorem addFailed_append (usage : TurnUsage) (first second : List CallUsage) :
    usage.addFailed (first ++ second) = (usage.addFailed first).addFailed second :=
  List.foldl_append

theorem addFailed_singleton (usage : TurnUsage) (call : CallUsage) :
    usage.addFailed [call] = usage.addCall call := rfl

/-- One more call of the second turn is one more call of both. -/
theorem addTurn_addCall (usage other : TurnUsage) (call : CallUsage) :
    usage.addTurn (other.addCall call) = (usage.addTurn other).addCall call := by
  obtain ⟨calls, prompt, cached, completion, cost, provider⟩ := usage
  obtain ⟨calls', prompt', cached', completion', cost', provider'⟩ := other
  obtain ⟨callPrompt, callCached, callProvider, callCompletion, callCost⟩ := call
  simp only [addTurn, addCall, TurnUsage.mk.injEq]
  refine ⟨(UInt32.add_assoc ..).symm, ?_, ?_, (UInt64.add_assoc ..).symm, ?_,
    Option.or_assoc ..⟩
  · cases callPrompt with
    | none => rfl
    | some callPrompt => exact (UInt64.add_assoc ..).symm
  · cases callCached with
    | none => rfl
    | some callCached =>
        cases cached <;> cases cached' <;>
          simp [addReported, UInt64.add_assoc]
  · cases callCost with
    | none => rfl
    | some callCost => cases cost <;> cases cost' <;> simp [addReported, add_assoc]

theorem addTurn_none (usage : TurnUsage) : usage.addTurn none = usage := by
  obtain ⟨calls, prompt, cached, completion, cost, provider⟩ := usage
  simp only [addTurn, none, TurnUsage.mk.injEq]
  refine ⟨UInt32.add_zero _, UInt64.add_zero _, ?_, UInt64.add_zero _, ?_, rfl⟩
  · cases cached <;> simp [addReported]
  · cases cost <;> simp [addReported]

/-- Two turns together are billed what their draws together are. -/
theorem addTurn_ofDraws (first second : List CallUsage) :
    (ofDraws first).addTurn (ofDraws second) = ofDraws (first ++ second) := by
  rw [ofDraws, ofDraws, ofDraws, addFailed_append]
  generalize none.addFailed first = usage
  induction second using List.reverseRecOn with
  | nil => exact addTurn_none usage
  | append_singleton second call ih =>
      rw [addFailed_append, addFailed_append, addFailed_singleton,
        addFailed_singleton, addTurn_addCall, ih]

/-- A field is absent only while every draw lacks it. -/
theorem ofDraws_eq_none (calls : List CallUsage) :
    ((ofDraws calls).cachedTokens = .none ↔
        ∀ call ∈ calls, call.cachedTokens = .none) ∧
      ((ofDraws calls).cost = .none ↔ ∀ call ∈ calls, call.cost = .none) ∧
      ((ofDraws calls).provider = .none ↔
        ∀ call ∈ calls, call.provider = .none) := by
  induction calls using List.reverseRecOn with
  | nil =>
      refine ⟨?_, ?_, ?_⟩ <;>
        exact ⟨fun _ call hcall => absurd hcall List.not_mem_nil, fun _ => rfl⟩
  | append_singleton calls call ih =>
      rw [ofDraws, addFailed_append, addFailed_singleton] at *
      obtain ⟨hcached, hcost, hprovider⟩ := ih
      simp only [List.forall_mem_append, List.forall_mem_singleton, addCall,
        ← hcached, ← hcost, ← hprovider, Option.or_eq_none_iff]
      refine ⟨?_, ?_, and_comm⟩
      · cases call.cachedTokens <;> simp
      · cases call.cost <;> simp

end TurnUsage

end Kitaebot.Agent
