import ToolDialogue.Json.Value
import ToolDialogue.Tool.Signature

/-! Tools: functions of the host that a call can name. A tool acts in a monad `m`, so it may keep
state. -/
namespace ToolDialogue

open Json

/-- What a tool reports when it fails. -/
structure ToolFailure where
  message : String
  deriving DecidableEq, Repr, Inhabited

/-- What a tool returns; its content is the result of the call. -/
structure Output where
  content : String
  deriving DecidableEq, Repr, Inhabited

namespace Output

/-- Floats are written positionally, whole ones without a point. -/
def layout : Decimal.Layout := ⟨none, "", .up⟩

def floatText (x : Float) : String :=
  if x.isNaN then "NaN"
  else if x.isInf then (if x < 0.0 then "-inf" else "inf")
  else String.ofList (layout.text x)

def ofFloat (x : Float) : Output :=
  ⟨floatText x⟩

def ofInt64 (n : Int64) : Output :=
  ⟨String.ofList (Number.intChars n.toInt)⟩

def ofBool (b : Bool) : Output :=
  ⟨if b then "true" else "false"⟩

/-- A string is taken as it is, any other value as its compact text. -/
def ofValue : Value → Output
  | .string s => ⟨s⟩
  | v => ⟨v.text⟩

end Output

/-- How a tool's body is attached to the host program. -/
inductive Attachment where
  /-- A function of the arguments. -/
  | function
  /-- A function of the arguments and the caller's context. -/
  | contextual
  /-- A function that runs aside because it may take long. -/
  | blocking
  /-- A handler of the host's own. -/
  | custom
  deriving DecidableEq, Repr, Inhabited

/-- Whether the body is handed the caller's context. -/
def Attachment.seesContext : Attachment → Bool
  | contextual => true
  | custom => true
  | function => false
  | blocking => false

/-- A tool receives one value for each declared parameter, in order. -/
structure Tool (m : Type → Type) where
  signature : Signature
  attachment : Attachment
  run : List Value → m (Except ToolFailure Output)

namespace Tool

def name {m : Type → Type} (tool : Tool m) : String :=
  tool.signature.name

/-- The same tool in a monad that can do what `m` does. -/
def lift {m n : Type → Type} [MonadLiftT m n] (tool : Tool m) : Tool n :=
  ⟨tool.signature, tool.attachment, fun args => monadLift (tool.run args)⟩

end Tool

end ToolDialogue
