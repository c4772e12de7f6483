import ToolDialogue.Strategy.Basic
import ToolDialogue.Text.Cut

/-! The turn-by-turn strategy. The calls that a response asks for run in order up to the first
one that fails or repeats an earlier call, and their results go back to the provider. A response
without calls is the answer. -/
namespace ToolDialogue

open Text

/-- A call that succeeded. -/
structure Performed where
  call : Call
  key : String
  result : String
  deriving DecidableEq, Repr, Inhabited

/-- What stopped a list of calls, if anything did. -/
inductive Stop where
  | none
  | repeated (key previous : String)
  | failed (call : Call) (error : CallError)
  deriving DecidableEq, Repr

/-- Makes calls in order until one fails or is a repeat; gives those that succeeded, what
stopped the list, and the log. -/
def runCalls {m : Type → Type} [Monad m] (box : Toolbox m) :
    List Call → CallLog → m (List Performed × Stop × CallLog)
  | [], log => return ([], .none, log)
  | call :: rest, log => do
    match ← box.callOnce call log with
    | (.ran key result, log) =>
      let (performed, stop, log) ← runCalls box rest log
      return (⟨call, key, result⟩ :: performed, stop, log)
    | (.known key previous, log) => return ([], .repeated key previous, log)
    | (.failed error, log) => return ([], .failed call error, log)

namespace TurnByTurn

/-- Follows the results when every call of a turn succeeded. -/
def nudge : String :=
  "If these results answer the request, state your final answer now without further calls."

/-- What the provider said, or the calls it made when it said nothing. -/
def spoken (response : Response) : String :=
  if (trim response.text.toList).isEmpty then "\n".intercalate (response.calls.map Call.text)
  else response.text

def correction (call : Call) (error : CallError) (names : List String) : Message :=
  let available :=
    if error.isUnknownTool then " Available functions: " ++ ", ".intercalate names ++ "." else ""
  .system (s!"The call `{call.text}` failed: {error.message}." ++ available ++
    " Correct the call and try again.")

def reminder (key previous : String) : Message :=
  .system (s!"`{key}` was already called and returned {previous}. " ++
    "Repeating a call does not change its result.")

def requestHeading : String :=
  "Original request:\n"

def resultsHeading : String :=
  "\n\nResults obtained so far:\n"

def warning (key : String) : String :=
  s!"\nUse these results to answer the request. Do not call `{key}` again."

/-- The message that restates a request with the results obtained so far. -/
def restatement (request : String) (log : CallLog) (key : String) : Message :=
  .user (requestHeading ++ request ++ resultsHeading ++ log.lines ++ warning key)

/-- The request that a message of the user carries: what a restatement quotes, or else the whole
message. -/
def requestIn (content : String) : String :=
  match (dropMark? requestHeading.toList content.toList).bind (cutAt? resultsHeading.toList) with
  | some (request, _) => String.ofList request
  | none => content

/-- Restates the latest request of a conversation. -/
def restated (conversation : Conversation) (log : CallLog) (key : String) : Message :=
  let request := match conversation.lastRequest? with
    | some message => requestIn message.content
    | none => "(no request found)"
  restatement request log key

/-- The turn of a response that asks for calls, once they have been made. -/
def turn (nudging : Bool) (conversation : Conversation) (response : Response)
    (names : List String) (performed : List Performed) (stop : Stop) (log : CallLog) : Turn :=
  let messages := Message.assistant (spoken response) ::
    performed.map fun p => .result p.key p.result
  let results := performed.map fun p => (p.call, p.result)
  match stop with
  | .none => ⟨.proceed, messages ++ if nudging then [.system nudge] else [], results⟩
  | .repeated key previous =>
    ⟨.restart, [reminder key previous, restated conversation log key], results⟩
  | .failed call error => ⟨.retry, messages ++ [correction call error names], results⟩

def process {m : Type → Type} [Monad m] (nudging : Bool) (box : Toolbox m)
    (conversation : Conversation) (response : Response) (log : CallLog) : m (Turn × CallLog) := do
  if response.calls.isEmpty then
    return (⟨.finish, [.assistant response.text], []⟩, log)
  else
    let (performed, stop, log) ← runCalls box response.calls log
    return (turn nudging conversation response box.names performed stop log, log)

end TurnByTurn

/-- The turn-by-turn strategy; `nudging` tells whether successful turns ask for the answer. -/
def Strategy.turnByTurn {m : Type → Type} [Monad m] (nudging : Bool) : Strategy m where
  name := "iterative"
  preamble _ := none
  process box conversation response log := do
    let (turn, log) ← TurnByTurn.process nudging box conversation response log
    return (.ok turn, log)

end ToolDialogue
