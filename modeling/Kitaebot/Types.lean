import Mathlib.Algebra.GroupWithZero.Nat
import Mathlib.Data.List.Basic

/-!
# Message types

The conversation messages of `types.rs`.  A tool name carries the proof that
it satisfies the grammar every endpoint enforces, as the Rust newtype does by
validating in every constructor.
-/

namespace Kitaebot

/-- The tool-name grammar `^[a-zA-Z0-9_-]+$`. -/
def isValidToolName (name : String) : Bool :=
  !name.toList.isEmpty &&
    name.toList.all fun c => c.isAlphanum || c == '_' || c == '-'

structure ToolName where
  value : String
  valid : isValidToolName value = true
  deriving DecidableEq, Repr

/-- The offender of a rejected tool name. -/
structure InvalidToolName where
  name : String
  deriving DecidableEq, Repr

def InvalidToolName.text (error : InvalidToolName) : String :=
  "tool name " ++ reprStr error.name ++ " must match ^[a-zA-Z0-9_-]+$"

def ToolName.parse (name : String) : Except InvalidToolName ToolName :=
  if h : isValidToolName name = true then .ok ⟨name, h⟩ else .error ⟨name⟩

@[simp]
theorem ToolName.parse_value (name : ToolName) :
    ToolName.parse name.value = .ok name := by
  simp [ToolName.parse, name.valid]

structure ToolFunction where
  name : ToolName
  arguments : String
  deriving DecidableEq, Repr

structure ToolCall where
  id : String
  function : ToolFunction
  deriving DecidableEq, Repr

inductive Message where
  | assistant (content : String)
  | system (content : String)
  | tool (callId : String) (content : String)
  | toolCalls (content : String) (calls : List ToolCall)
  | user (content : String)
  deriving DecidableEq, Repr

namespace Message

/-- The text content common to every variant. -/
def content : Message → String
  | assistant content => content
  | system content => content
  | tool _ content => content
  | toolCalls content _ => content
  | user content => content

/-- Byte count over all content fields, tool names and arguments included. -/
def charCount : Message → ℕ
  | toolCalls content calls =>
      content.utf8ByteSize +
        (calls.map fun call => call.function.name.value.utf8ByteSize +
          call.function.arguments.utf8ByteSize).sum
  | message => message.content.utf8ByteSize

end Message

/-- The `chars / 4` estimate. -/
def estimateTokensFromChars (chars : ℕ) : ℕ := chars / 4

def estimateTokens (text : String) : ℕ :=
  estimateTokensFromChars text.utf8ByteSize

def Message.tokenEstimate (message : Message) : ℕ :=
  estimateTokensFromChars message.charCount

end Kitaebot
