import ToolDialogue.CallLog
import ToolDialogue.Conversion
import ToolDialogue.Toolbox

/-! Evaluation of calls. Before a call runs it is made ready: its tool is found, its arguments
are shared out to the parameters, calls among them are evaluated, innermost first, and each
argument is converted to the declared type. Only the outermost call of an expression is looked up
in a log and entered there, under the values it passes. -/
namespace ToolDialogue

open Json (Value)

/-- How deep calls may nest in one expression. -/
def nestingLimit : Nat := 16

/-- Why a call has no result. -/
inductive CallError where
  | unknownTool (name : String)
  | argumentCount (name expected : String) (found : Nat)
  | conversion (error : ConversionError)
  | toolFailed (name : String) (failure : ToolFailure)
  | nestedTooDeep
  deriving DecidableEq, Repr

namespace CallError

def message : CallError → String
  | unknownTool name => s!"unknown function `{name}`"
  | argumentCount name expected found => s!"`{name}` expects {expected} argument(s), got {found}"
  | conversion error => error.message
  | toolFailed name failure => s!"`{name}` failed: {failure.message}"
  | nestedTooDeep => s!"calls nested deeper than {nestingLimit} levels"

def isUnknownTool : CallError → Bool
  | unknownTool _ => true
  | _ => false

end CallError

/-- What fills a parameter: one argument, or all that are left. -/
inductive Slot where
  | single (type : ValueType) (arg : String)
  | rest (elem : ValueType) (args : List String)
  deriving DecidableEq, Repr

/-- Shares arguments out to parameters, each slot under the parameter's name; none if their
numbers do not fit. -/
def assign? : List Param → List String → Option (List (String × Slot))
  | [], [] => some []
  | [], _ :: _ => none
  | [⟨name, .variadic elem, _⟩], args => some [(name, .rest elem args)]
  | _ :: _, [] => none
  | p :: params, arg :: args => (assign? params args).map ((p.name, .single p.type arg) :: ·)

variable {m : Type → Type}

/-- A tool with the values it is to receive. -/
structure ReadyCall (m : Type → Type) where
  tool : Tool m
  args : List Value

def ReadyCall.key (call : ReadyCall m) : String :=
  callKey call.tool.name call.args

variable [Monad m]

/-- Runs the tool; the result of a call is the content of the output. -/
def ReadyCall.run (call : ReadyCall m) : ExceptT CallError m String := ExceptT.mk do
  match ← call.tool.run call.args with
  | .ok output => return .ok output.content
  | .error failure => return .error (.toolFailed call.tool.name failure)

/-- The value of an argument whose calls have been evaluated. -/
def converted (param : String) (type : ValueType) (arg : Argument) : ExceptT CallError m Value :=
  match convert param type arg with
  | .ok v => pure v
  | .error e => throw (.conversion e)

namespace Toolbox

/-- Puts results in the place of the calls in an argument; the results are not evaluated again.
`lists` counts the lists that the declared type allows in one another here. Where it allows one,
a call of an unknown name such as `listOf(1, 2)` is the list of its arguments. Such a list takes
up a level of nesting, and `passed` counts those above; `run passed call` evaluates a call below
them. -/
def settle (box : Toolbox m) (run : Nat → Call → ExceptT CallError m String) :
    Nat → Nat → Argument → ExceptT CallError m Argument
  | lists, passed, .call call => do
    if box.contains call.name then
      return .ofResult (← run passed call)
    else
      match lists with
      | 0 => throw (.unknownTool call.name)
      | lists + 1 =>
        return .group (← call.args.mapM fun arg => box.settle run lists (passed + 1) (.ofText arg))
  | lists + 1, passed, .group items => do
    return .group (← items.mapM (box.settle run lists passed))
  | _, _, arg => pure arg

/-- The value of one argument. -/
def valueOf (box : Toolbox m) (run : Nat → Call → ExceptT CallError m String) (param : String)
    (type : ValueType) (arg : String) : ExceptT CallError m Value := do
  converted param type (← box.settle run type.listDepth 0 (.ofText arg))

/-- The list of the values of trailing arguments. A single argument that is a group, or
evaluates to one, is spread over the list unless its items are to be lists. -/
def listOf (box : Toolbox m) (run : Nat → Call → ExceptT CallError m String) (param : String)
    (elem : ValueType) (args : List String) : ExceptT CallError m Value := do
  match elem.isList, args with
  | false, [arg] =>
    match ← box.settle run 1 0 (.ofText arg) with
    | .group items => converted param (.variadic elem) (.group items)
    | arg => return .array [← converted param elem arg]
  | _, args => return .array (← args.mapM (box.valueOf run param elem))

/-- Makes a call ready, where `run` evaluates the calls among its arguments. -/
def readyWith (box : Toolbox m) (run : Nat → Call → ExceptT CallError m String) (call : Call) :
    ExceptT CallError m (ReadyCall m) := do
  let some tool := box.find? call.name | throw (.unknownTool call.name)
  let some slots := assign? tool.signature.params call.args
    | throw (.argumentCount call.name tool.signature.arity call.args.length)
  let args ← slots.mapM fun
    | (param, .single type arg) => box.valueOf run param type arg
    | (param, .rest elem args) => box.listOf run param elem args
  return ⟨tool, args⟩

/-- Makes a call ready in which calls, itself counted, may nest `room` deep. -/
def readyWithin (box : Toolbox m) : Nat → Call → ExceptT CallError m (ReadyCall m)
  | 0, _ => throw .nestedTooDeep
  | room + 1, call =>
    box.readyWith (fun passed inner => do (← box.readyWithin (room - passed) inner).run) call
termination_by room => room
decreasing_by omega

def ready (box : Toolbox m) (call : Call) : ExceptT CallError m (ReadyCall m) :=
  box.readyWithin nestingLimit call

/-- The result of a call, without regard to any log. -/
def evaluate (box : Toolbox m) (call : Call) : ExceptT CallError m String := do
  (← box.ready call).run

end Toolbox

/-- What became of a call that was made against a log. -/
inductive CallOutcome where
  /-- The tool ran, and its result was entered. -/
  | ran (key result : String)
  /-- The key stood in the log already; the tool was not run again. -/
  | known (key previous : String)
  | failed (error : CallError)
  deriving DecidableEq, Repr

/-- Makes a call unless the log knows its key; only a result changes the log. -/
def Toolbox.callOnce (box : Toolbox m) (call : Call) (log : CallLog) :
    m (CallOutcome × CallLog) := do
  match ← (box.ready call).run with
  | .error error => return (.failed error, log)
  | .ok ready =>
    match log.find? ready.key with
    | some previous => return (.known ready.key previous, log)
    | none =>
      match ← ready.run.run with
      | .error error => return (.failed error, log)
      | .ok result => return (.ran ready.key result, log.put ready.key result)

end ToolDialogue
