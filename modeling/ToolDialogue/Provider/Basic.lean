import ToolDialogue.Dialogue.Message
import ToolDialogue.Json.Reader
import ToolDialogue.Run.Error

/-! Providers of responses. A provider acts in a monad `m`, so its responses may depend on all
that went before. -/
namespace ToolDialogue

/-- What a provider tells of itself. -/
structure ProviderInfo where
  name : String
  model : String
  deriving DecidableEq, Repr, Inhabited

structure Provider (m : Type → Type) where
  name : String
  /-- Waits for the next send and tells how many milliseconds that took. -/
  wait : m Nat
  /-- Sends the messages so far and the tools on offer. -/
  send : List Message → List Signature → m (Except RunError Response)
  /-- Takes notice of a call that succeeded. -/
  notice : Call → String → m Unit

/-- Reads what a service sent as JSON. -/
def readPayload (text : String) : Except RunError Json.Value :=
  match Json.Value.ofText? text with
  | some v => .ok v
  | none => .error (.unreadable "the payload is not JSON" "")

end ToolDialogue
