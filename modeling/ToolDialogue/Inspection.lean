import ToolDialogue.Provider.Script
import ToolDialogue.Run.Runner
import ToolDialogue.Text.Quoted

/-! One-line descriptions of tools, toolboxes, scripts and runners for logs. -/
namespace ToolDialogue

open Text

/-- Fields in braces after a name. -/
def inspectRecord (name : String) (fields : List (String × String)) : String :=
  name ++ " \x7b " ++ ", ".intercalate (fields.map fun f => f.1 ++ ": " ++ f.2) ++ " \x7d"

/-- The kind of handler and the tool's name; a handler of the host's own describes itself. -/
def Tool.inspect {m : Type → Type} (tool : Tool m) : String :=
  let handler (kind : String) := kind ++ " \x7b name: " ++ quoted tool.name ++ ", .. \x7d"
  match tool.attachment with
  | .function => handler "NoCtxToolHandler"
  | .contextual => handler "FnToolHandler"
  | .blocking => handler "BlockingToolHandler"
  | .custom => "Custom"

def Toolbox.inspect {m : Type → Type} (box : Toolbox m) : String :=
  inspectRecord "ToolRegistry" [("tools", "[" ++ ", ".intercalate (box.names.map quoted) ++ "]")]

def ProviderInfo.inspect (info : ProviderInfo) : String :=
  inspectRecord "ProviderMetadata" [("name", quoted info.name), ("model", quoted info.model)]

def Script.inspect (s : Script) : String :=
  inspectRecord "MockProvider" [("meta", s.info.inspect),
    ("queued_responses", toString s.replies.length), ("recorded_calls", toString s.sent.length)]

/-- The digits of `n` thousandths behind the point, without zeros at the end. -/
def thousandths (n : Nat) : String :=
  let digits := (Nat.toDigits 10 (1000 + n)).drop 1
  String.ofList (digits.reverse.dropWhile (· = '0')).reverse

/-- A time in the unit that suits it. -/
def inspectMilliseconds (ms : Nat) : String :=
  if ms = 0 then "0ns"
  else if ms < 1000 then s!"{ms}ms"
  else if ms % 1000 = 0 then s!"{ms / 1000}s"
  else s!"{ms / 1000}.{thousandths (ms % 1000)}s"

def Limits.inspect (limits : Limits) : String :=
  let timeout := match limits.timeoutMs with
    | some ms => "Some(" ++ inspectMilliseconds ms ++ ")"
    | none => "None"
  inspectRecord "DirectorConfig" [("max_turns", toString limits.maxTurns), ("timeout", timeout)]

def Runner.inspect {m : Type → Type} (r : Runner m) : String :=
  inspectRecord "Director" [("provider", quoted r.provider.name),
    ("strategy", quoted r.strategy.name), ("tools", toString r.toolbox.size),
    ("config", r.limits.inspect)]

end ToolDialogue
