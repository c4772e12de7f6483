import ToolDialogue.Tool.Basic

/-! Typed access to the values a tool receives. -/
namespace ToolDialogue

open Json

/-- The values that a tool receives. -/
abbrev Args := List Value

namespace Args

/-- The value at `index`. -/
def require (args : Args) (index : Nat) : Except ToolFailure Value :=
  match args[index]? with
  | some v => .ok v
  | none => .error ⟨s!"missing argument {index}"⟩

/-- Reads `v`, which stands at `index`, as what `expected` names. -/
def expect {α : Type} (index : Nat) (expected : String) (read : Value → Option α) (v : Value) :
    Except ToolFailure α :=
  match read v with
  | some a => .ok a
  | none => .error ⟨s!"argument {index}: expected {expected}, found {v.text}"⟩

def int64 (args : Args) (index : Nat) : Except ToolFailure Int64 := do
  expect index "an integer" Value.toInt64? (← args.require index)

/-- The number at `index`; integers are widened. -/
def float (args : Args) (index : Nat) : Except ToolFailure Float := do
  expect index "a number" Value.toFloat? (← args.require index)

def bool (args : Args) (index : Nat) : Except ToolFailure Bool := do
  expect index "a boolean" Value.toBool? (← args.require index)

def text (args : Args) (index : Nat) : Except ToolFailure String := do
  expect index "text" Value.toString? (← args.require index)

def list (args : Args) (index : Nat) : Except ToolFailure (List Value) := do
  expect index "an array" Value.toList? (← args.require index)

def int64List (args : Args) (index : Nat) : Except ToolFailure (List Int64) := do
  (← args.list index).mapM (expect index "integers" Value.toInt64?)

def floatList (args : Args) (index : Nat) : Except ToolFailure (List Float) := do
  (← args.list index).mapM (expect index "numbers" Value.toFloat?)

end Args

/-- A way to read an argument. -/
inductive Accessor where
  | int64
  | float
  | bool
  | text
  | list
  | int64List
  | floatList
  /-- Any value, and null where there is none. -/
  | value
  deriving DecidableEq, Repr

/-- The argument at `index` as a value again; a float that is not finite becomes null. -/
def Accessor.read (a : Accessor) (args : Args) (index : Nat) : Except ToolFailure Value :=
  let ofFloat (x : Float) : Value := ((Number.ofFloat? x).map Value.number).getD .null
  match a with
  | int64 => Value.ofInt64 <$> args.int64 index
  | float => ofFloat <$> args.float index
  | bool => Value.bool <$> args.bool index
  | text => Value.string <$> args.text index
  | list => Value.array <$> args.list index
  | int64List => (Value.array ∘ List.map Value.ofInt64) <$> args.int64List index
  | floatList => (Value.array ∘ List.map ofFloat) <$> args.floatList index
  | value => .ok (args[index]?.getD .null)

end ToolDialogue
