import ToolDialogue.Expr.Segment
import ToolDialogue.Strategy.Basic

/-! The fill-in strategy, which takes a single pass. The provider writes its answer with call
expressions in it, and each expression gives way to its result. A repeated expression takes the
result in the log, text between delimiters that is no call stays as it is, and any other failure
ends the run. -/
namespace ToolDialogue

namespace FillIn

/-- Puts results in the place of the expressions of a text, from left to right; also gives the
calls that ran with their results. -/
def fill {m : Type → Type} [Monad m] (d : Delimiters) (box : Toolbox m) :
    List Segment → CallLog → m (Except CallError (List Char × List (Call × String)) × CallLog)
  | [], log => return (.ok ([], []), log)
  | .literal text :: rest, log => do
    let (filled, log) ← fill d box rest log
    return (filled.map (Prod.map (text ++ ·) id), log)
  | .expression text :: rest, log => do
    match Call.read text with
    | .error _ =>
      let (filled, log) ← fill d box rest log
      return (filled.map (Prod.map ((Segment.expression text).source d ++ ·) id), log)
    | .ok call =>
      match ← box.callOnce call log with
      | (.ran _ result, log) =>
        let (filled, log) ← fill d box rest log
        return (filled.map (Prod.map (result.toList ++ ·) ((call, result) :: ·)), log)
      | (.known _ previous, log) =>
        let (filled, log) ← fill d box rest log
        return (filled.map (Prod.map (previous.toList ++ ·) id), log)
      | (.failed error, log) => return (.error error, log)

def process {m : Type → Type} [Monad m] (d : Delimiters) (box : Toolbox m) (response : Response)
    (log : CallLog) : m (Except CallError Turn × CallLog) := do
  let (filled, log) ← fill d box (Segment.split d response.text.toList) log
  return (filled.map fun (text, results) =>
    ⟨.finishFilled, [.assistant (String.ofList text)], results⟩, log)

/-- A line for a tool, and one for each of its parameters that is described. -/
def describe (s : Signature) : String :=
  let heading := if s.description.isEmpty then s.text else s!"{s.text}: {s.description}"
  let params := s.params.filterMap fun p => p.description.map fun d => s!"    {p.name}: {d}\n"
  s!"- {heading}\n" ++ String.join params

def introduction (d : Delimiters) : String :=
  s!"You can call the functions below by writing a call expression between {d.opener} and " ++
    s!"{d.closer} anywhere in your answer. Each expression is replaced by the function's result " ++
    "before your answer is shown.\n\nFunctions:\n"

def rules (d : Delimiters) : String :=
  "\nRules:\n" ++
    s!"- Write calls as name(arg1, arg2), for example {d.opener}name(1, 2){d.closer}.\n" ++
    "- Put text arguments in double quotes and escape inner quotes as \\\".\n" ++
    "- Calls may be nested; inner calls are evaluated first.\n" ++
    "- Write arrays as [1, 2, 3]. A parameter shown as `T...` takes any number of arguments.\n" ++
    "- Only call the functions listed above."

/-- The message that teaches a provider to call these tools; none if there are no tools. -/
def instructions (d : Delimiters) (tools : List Signature) : Option Message :=
  if tools.isEmpty then none
  else some (.system (introduction d ++ String.join (tools.map describe) ++ rules d))

end FillIn

/-- The fill-in strategy with these delimiters. -/
def Strategy.fillIn {m : Type → Type} [Monad m] (d : Delimiters) : Strategy m where
  name := "template"
  preamble := FillIn.instructions d
  process box _ response log := FillIn.process d box response log

end ToolDialogue
