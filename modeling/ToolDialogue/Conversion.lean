import ToolDialogue.Expr.Argument
import ToolDialogue.Json.Value
import ToolDialogue.Tool.Signature

/-! Conversion of arguments to values of declared types. Scalars are read from numbers, words or
text; a list comes from a group, from bare text with commas, bracketed or not, or from a single
scalar. A quoted literal is always one scalar. -/
namespace ToolDialogue

open Json Text

/-- Why an argument does not fit its type; `shape` names the argument's shape. -/
inductive ConversionFault where
  | unevaluated (name : String)
  | notInt64
  | integerText (fault : Decimal.IntegerFault)
  | notInteger (shape : String)
  | notFinite (shape : String)
  | booleanText
  | notBoolean (shape : String)
  | notChar (shape : String)
  | charCount (count : Nat)
  | notText
  deriving DecidableEq, Repr

def ConversionFault.message : ConversionFault → String
  | unevaluated name => s!"call `{name}` was not evaluated"
  | notInt64 => "not a 64-bit integer"
  | integerText fault => fault.message
  | notInteger shape => s!"expected an integer, found a {shape}"
  | notFinite shape => s!"expected a finite number, found a {shape}"
  | booleanText => "expected true or false"
  | notBoolean shape => s!"expected true or false, found a {shape}"
  | notChar shape => s!"expected a character, found a {shape}"
  | charCount count => s!"expected one character, found {count}"
  | notText => "expected text, found a group"

/-- An argument, here as `raw` text, that does not become a value of the expected type. -/
structure ConversionError where
  param : String
  expected : ValueType
  raw : String
  fault : ConversionFault
  deriving DecidableEq, Repr

def ConversionError.message (e : ConversionError) : String :=
  s!"cannot convert `{e.raw}` to {e.expected.text} for parameter `{e.param}`: " ++
    e.fault.message

namespace Argument

def toInteger : Argument → Except ConversionFault Value
  | number n =>
    match n.toInt64? with
    | some n => .ok (.ofInt64 n)
    | none => .error .notInt64
  | quoted s | bare s =>
    match Decimal.readInt64 (trim s.toList) with
    | .ok n => .ok (.ofInt64 n)
    | .error fault => .error (.integerText fault)
  | arg => .error (.notInteger arg.shape)

def toFloat (arg : Argument) : Except ConversionFault Value :=
  let read : Option Float := match arg with
    | number n => some n.toFloat
    | quoted s | bare s => Decimal.readFloat (trim s.toList)
    | _ => none
  match read.bind Number.ofFloat? with
  | some n => .ok (.number n)
  | none => .error (.notFinite arg.shape)

def toBoolean : Argument → Except ConversionFault Value
  | boolean b => .ok (.bool b)
  | quoted s | bare s =>
    match readBoolean? (trim s.toList) with
    | some b => .ok (.bool b)
    | none => .error .booleanText
  | arg => .error (.notBoolean arg.shape)

def oneChar (text : String) : Except ConversionFault Value :=
  if text.length = 1 then .ok (.string text) else .error (.charCount text.length)

def toChar : Argument → Except ConversionFault Value
  | quoted s | bare s => oneChar s
  | number n => oneChar n.text
  | arg => .error (.notChar arg.shape)

def toText : Argument → Except ConversionFault Value
  | group _ => .error .notText
  | arg => .ok (.string arg.text)

/-- The items of an argument in the place of a list. -/
def items : Argument → List Argument
  | group items => items
  | bare s =>
    let body := trim s.toList
    (splitArgs ((unbracket? body).getD body)).map fun piece => ofResult (String.ofList piece)
  | arg => [arg]

end Argument

/-- Converts an argument to a value of `type` for the parameter named `param`. An argument in
which a call is left fails. -/
def convert (param : String) (type : ValueType) (arg : Argument) :
    Except ConversionError Value :=
  let report (result : Except ConversionFault Value) : Except ConversionError Value :=
    result.mapError (⟨param, type, arg.text, ·⟩)
  match arg with
  | .call c => report (.error (.unevaluated c.name))
  | _ =>
    match type with
    | .integer => report arg.toInteger
    | .float => report arg.toFloat
    | .boolean => report arg.toBoolean
    | .char => report arg.toChar
    | .string => report arg.toText
    | .array elem | .variadic elem => .array <$> arg.items.mapM (convert param elem)

end ToolDialogue
