import ToolDialogue.Expr.Call

/-! Messages of a dialogue and the responses of a provider. -/
namespace ToolDialogue

/-- Who wrote a message. -/
inductive Role where
  | system
  | user
  | assistant
  | tool
  deriving DecidableEq, Repr, Inhabited

def Role.name : Role → String
  | system => "system"
  | user => "user"
  | assistant => "assistant"
  | tool => "tool"

/-- A message. The result of a call also names the key of the call. -/
structure Message where
  role : Role
  content : String
  call : Option String
  deriving DecidableEq, Repr, Inhabited

namespace Message

def system (content : String) : Message :=
  ⟨.system, content, none⟩

def user (content : String) : Message :=
  ⟨.user, content, none⟩

def assistant (content : String) : Message :=
  ⟨.assistant, content, none⟩

def result (key content : String) : Message :=
  ⟨.tool, content, some key⟩

end Message

/-- What a provider answers in one turn: text, and the calls it asks for in order. -/
structure Response where
  text : String
  calls : List Call
  deriving DecidableEq, Repr, Inhabited

def Response.hasCalls (r : Response) : Bool :=
  !r.calls.isEmpty

/-- A text that stands for a call in a prepared response and is none. -/
structure BadCallText where
  text : String
  reason : NotACall
  deriving DecidableEq, Repr

def BadCallText.message (bad : BadCallText) : String :=
  s!"test call `{bad.text}` should parse: {bad.reason.message}"

/-- The response without text that asks for the calls which these texts spell, in order. -/
def Response.ofCallTexts (texts : List String) : Except BadCallText Response :=
  (⟨"", ·⟩) <$> texts.mapM fun text => (Call.ofText text).mapError (⟨text, ·⟩)

end ToolDialogue
