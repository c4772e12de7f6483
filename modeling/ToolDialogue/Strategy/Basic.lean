import ToolDialogue.Dialogue.Conversation
import ToolDialogue.Evaluation

/-! Strategies. A strategy turns one response of a provider into messages for the conversation,
the calls that succeeded, and what is to happen next. -/
namespace ToolDialogue

/-- What happens after a turn. -/
inductive NextStep where
  /-- Every call succeeded; the provider is asked again. -/
  | proceed
  /-- A call failed, and a correction is among the messages; the provider is asked again. -/
  | retry
  /-- A call was repeated; a new thread starts with the messages, and the log is dropped. -/
  | restart
  /-- The response is the answer. -/
  | finish
  /-- The response, with its expressions filled in, is the answer. -/
  | finishFilled
  deriving DecidableEq, Repr, Inhabited

def NextStep.isLast : NextStep → Bool
  | finish => true
  | finishFilled => true
  | _ => false

structure Turn where
  next : NextStep
  messages : List Message
  /-- The calls that ran in this turn and their results, in order. -/
  results : List (Call × String)
  deriving DecidableEq, Repr, Inhabited

/-- The answer of a turn that ends a run: its last message by the assistant. -/
def Turn.answer? (turn : Turn) : Option String :=
  if turn.next.isLast then
    (turn.messages.reverse.find? (·.role = .assistant)).map Message.content
  else none

/-- `process` reads the conversation as it was before the response, and gives the log with the
calls that succeeded; an error ends the run. -/
structure Strategy (m : Type → Type) where
  name : String
  /-- The preamble that tells a provider how to call the tools, if it needs one. -/
  preamble : List Signature → Option Message
  process : Toolbox m → Conversation → Response → CallLog → m (Except CallError Turn × CallLog)

end ToolDialogue
