import ToolDialogue.Evaluation

/-! What ends a run, or a provider's turn, without an answer. -/
namespace ToolDialogue

/-- A failure that a strategy cannot answer with a correction. -/
inductive Cause where
  | call (error : CallError)
  | tool (failure : ToolFailure)
  deriving DecidableEq, Repr

def Cause.message : Cause → String
  | call error => error.message
  | tool failure => failure.message

inductive RunError where
  /-- The provider has no response; `retryable` if another turn may have one. -/
  | provider (message : String) (retryable : Bool)
  /-- The provider's response cannot be read. -/
  | unreadable (message raw : String)
  | timeout (elapsedMs : Nat)
  | callFailed (cause : Cause)
  /-- No answer came within the turns allowed. -/
  | outOfTurns (turns : Nat) (lastError : Option String)
  deriving DecidableEq, Repr

namespace RunError

def message : RunError → String
  | provider message _ => s!"Provider error: {message}"
  | unreadable message _ => s!"Response format error: {message}"
  | timeout elapsedMs => s!"Operation timed out after {elapsedMs}ms"
  | callFailed cause => s!"Invocation failed: {cause.message}"
  | outOfTurns turns lastError =>
    let suffix := match lastError with
      | some error => s!" (last error: {error})"
      | none => ""
    s!"No final answer after {turns} turns{suffix}"

/-- Whether another turn may succeed. -/
def isRetryable : RunError → Bool
  | provider _ retryable => retryable
  | unreadable _ _ => true
  | timeout _ => true
  | callFailed _ => false
  | outOfTurns _ _ => false

/-- The text of the failure that this one wraps. -/
def cause? : RunError → Option String
  | callFailed cause => some cause.message
  | _ => none

end RunError

end ToolDialogue
