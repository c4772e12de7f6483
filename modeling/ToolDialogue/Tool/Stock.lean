import ToolDialogue.Tool.Access

/-! Ready-made tools: arithmetic, lists, constants, failures, a counter and typed access to the
arguments. Every tool object counts its runs, under a number of its own. -/
namespace ToolDialogue

open Json

namespace Stock

/-- The 64-bit integer `n`, or the error if it is out of range. -/
def int64 (error : String) (n : Int) : Except ToolFailure Int64 :=
  if Int64.minValue.toInt ≤ n ∧ n ≤ Int64.maxValue.toInt then .ok (.ofInt n) else .error ⟨error⟩

def add (a b : Int64) : Except ToolFailure Int64 :=
  int64 "overflow" (a.toInt + b.toInt)

def mul (a b : Int64) : Except ToolFailure Int64 :=
  int64 "overflow" (a.toInt * b.toInt)

/-- The quotient, rounded toward zero. -/
def div (a b : Int64) : Except ToolFailure Int64 :=
  if b = 0 then .error ⟨"division by zero"⟩
  else int64 "division by zero" (a.toInt.tdiv b.toInt)

/-- The sum from left to right; a partial sum out of range is an overflow. -/
def sum (ns : List Int64) : Except ToolFailure Int64 :=
  ns.foldlM add 0

def mean (xs : List Float) : Except ToolFailure Float :=
  if xs.isEmpty then .error ⟨"mean of nothing"⟩
  else .ok (xs.foldl (· + ·) 0.0 / Float.ofNat xs.length)

/-- The integers from `a` to `b`. -/
def range (a b : Int64) : Except ToolFailure (List Int64) :=
  let last := b.toInt - a.toInt
  if 1000 < last then .error ⟨"range too large"⟩
  else .ok ((List.range (last + 1).toNat).map fun i => a + Int64.ofNat i)

/-- What a tool does. -/
inductive Body where
  | add
  | mul
  | div
  | sum
  | mean
  | range
  | int
  | float
  | bool
  | text
  | value
  | all
  | count
  | join
  | const (content : String)
  | json (value : Value)
  | fail (message : String)
  /-- Tells how often it ran. -/
  | tick
  /-- Puts the caller's greeting in front of a text. -/
  | greet
  | get (accessor : Accessor) (index : Nat)

/-- The output of a body when `runs` runs of the tool, this one among them, have begun. -/
def Body.output (greeting : String) (runs : Nat) (args : Args) :
    Body → Except ToolFailure Output
  | add => do return .ofInt64 (← Stock.add (← args.int64 0) (← args.int64 1))
  | mul => do return .ofInt64 (← Stock.mul (← args.int64 0) (← args.int64 1))
  | div => do return .ofInt64 (← Stock.div (← args.int64 0) (← args.int64 1))
  | sum => do return .ofInt64 (← Stock.sum (← args.int64List 0))
  | mean => do return .ofFloat (← Stock.mean (← args.floatList 0))
  | range => do
    let items ← Stock.range (← args.int64 0) (← args.int64 1)
    return .ofValue (.array (items.map Value.ofInt64))
  | int => do return .ofInt64 (← args.int64 0)
  | float => do return .ofFloat (← args.float 0)
  | bool => do return .ofBool (← args.bool 0)
  | text => do return ⟨← args.text 0⟩
  | value =>
    match args[0]? with
    | some v => .ok (.ofValue v)
    | none => .error ⟨"no value"⟩
  | all => .ok (.ofValue (.array args))
  | count => do return .ofInt64 (.ofNat (← args.list 0).length)
  | join => do
    let separator ← args.text 0
    let items ← args.list 1
    return ⟨separator.intercalate (items.map fun v => (Output.ofValue v).content)⟩
  | const content => .ok ⟨content⟩
  | json v => .ok (.ofValue v)
  | fail message => .error ⟨message⟩
  | tick => do
    let n ← args.int64 0
    return ⟨s!"{(Output.ofInt64 n).content}:{runs}"⟩
  | greet => do return ⟨greeting ++ (← args.text 0)⟩
  | get accessor index => Output.ofValue <$> accessor.read args index

/-- How often each tool object has run, by its number. -/
abbrev Counters := Nat → Nat

def Counters.bump (c : Counters) (id : Nat) : Counters :=
  fun i => if i = id then c i + 1 else c i

/-- The tool object number `id`; without the caller's context its greeting is empty. -/
def tool (id : Nat) (greeting : String) (signature : Signature) (attachment : Attachment)
    (body : Body) : Tool (StateM Counters) where
  signature := signature
  attachment := attachment
  run args := do
    modify (·.bump id)
    return body.output (if attachment.seesContext then greeting else "") ((← get) id) args

end Stock

end ToolDialogue
