/-! Declared tools: types of values, parameters and signatures. -/
namespace ToolDialogue

/-- The declared type of a parameter's value. -/
inductive ValueType where
  /-- A signed 64-bit integer. -/
  | integer
  /-- A finite float. -/
  | float
  | boolean
  /-- Exactly one character. -/
  | char
  | string
  | array (elem : ValueType)
  /-- Any number of trailing arguments, taken together as a list. Before the last parameter it
  takes one argument, like an array. -/
  | variadic (elem : ValueType)
  deriving DecidableEq, Repr, Inhabited

namespace ValueType

def text : ValueType → String
  | integer => "Int"
  | float => "Float"
  | boolean => "Boolean"
  | char => "Char"
  | string => "String"
  | array elem => s!"Array<{elem.text}>"
  | variadic elem => s!"{elem.text}..."

/-- The type of the items of a list. -/
def elem? : ValueType → Option ValueType
  | array elem => some elem
  | variadic elem => some elem
  | _ => none

def isList (type : ValueType) : Bool :=
  type.elem?.isSome

def isVariadic : ValueType → Bool
  | variadic _ => true
  | _ => false

/-- How many lists stand in one another. -/
def listDepth : ValueType → Nat
  | array elem => elem.listDepth + 1
  | variadic elem => elem.listDepth + 1
  | _ => 0

/-- Trailing arguments that are no lists themselves. -/
theorem listDepth_variadic {elem : ValueType} (h : elem.isList = false) :
    (variadic elem).listDepth = 1 := by
  cases elem with
  | array | variadic => contradiction
  | _ => rfl

end ValueType

structure Param where
  name : String
  type : ValueType
  description : Option String
  deriving DecidableEq, Repr, Inhabited

/-- A tool's name, what it does, and its parameters in order. -/
structure Signature where
  name : String
  description : String
  params : List Param
  deriving DecidableEq, Repr, Inhabited

namespace Signature

/-- A signature without parameters. -/
def named (name description : String) : Signature :=
  ⟨name, description, []⟩

def withParam (s : Signature) (name : String) (type : ValueType) : Signature :=
  { s with params := s.params ++ [⟨name, type, none⟩] }

def withDescribedParam (s : Signature) (name : String) (type : ValueType)
    (description : String) : Signature :=
  { s with params := s.params ++ [⟨name, type, some description⟩] }

def withVariadic (s : Signature) (name : String) (elem : ValueType) : Signature :=
  s.withParam name (.variadic elem)

/-- Whether the last parameter takes any number of arguments. -/
def isVariadic (s : Signature) : Bool :=
  s.params.getLast?.any (·.type.isVariadic)

/-- Whether a parameter before the last one is declared variadic. -/
def hasInnerVariadic (s : Signature) : Bool :=
  s.params.dropLast.any (·.type.isVariadic)

/-- How many arguments are needed at least. -/
def minArgs (s : Signature) : Nat :=
  if s.isVariadic then s.params.length - 1 else s.params.length

/-- Whether a call may have `count` arguments. -/
def accepts (s : Signature) (count : Nat) : Bool :=
  if s.isVariadic then s.minArgs ≤ count else count = s.params.length

/-- The number of arguments in words. -/
def arity (s : Signature) : String :=
  if s.isVariadic then s!"at least {s.minArgs}" else toString s.params.length

def text (s : Signature) : String :=
  let params := s.params.map fun p => s!"{p.name}: {p.type.text}"
  s.name ++ "(" ++ ", ".intercalate params ++ ")"

end Signature

end ToolDialogue
