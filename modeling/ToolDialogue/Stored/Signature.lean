import ToolDialogue.Stored.Record
import ToolDialogue.Tool.Signature

/-! Stored forms of types, parameters and signatures. -/
namespace ToolDialogue

open Json (Value)
open Stored

namespace ValueType

def encode : ValueType → Value
  | integer => .object [("type", .string "integer")]
  | float => .object [("type", .string "float")]
  | boolean => .object [("type", .string "boolean")]
  | char => .object [("type", .string "char")]
  | string => .object [("type", .string "string")]
  | array elem => .object [("type", .string "array"), ("of", elem.encode)]
  | variadic elem => .object [("type", .string "vararg"), ("of", elem.encode)]

/-- The scalar type of this name. -/
def scalar? (name : String) : Option ValueType :=
  [("integer", integer), ("float", float), ("boolean", boolean), ("char", char),
    ("string", string)].lookup name

/-- The type of the name that `tag` holds; a scalar has no content but null, and a list needs an
element type. -/
def ofParts? (tag : Value) (content : Option Value) (elem : Option ValueType) :
    Option ValueType := do
  let name ← name? tag
  match scalar? name, content with
  | some type, none => some type
  | some type, some .null => some type
  | some _, some _ => none
  | none, _ =>
    if name = "array" then elem.map array
    else if name = "vararg" then elem.map variadic
    else none

mutual

def decode? : Value → Option ValueType
  | .object members => do
    ofParts? (← members.lookup "type") (members.lookup "of") (decodeElem? members)
  | .array [tag, content] => ofParts? tag (some content) (decode? content)
  | _ => none

/-- Reads the member that holds the element type. -/
def decodeElem? : List (String × Value) → Option ValueType
  | [] => none
  | (key, v) :: rest => if key = "of" then decode? v else decodeElem? rest

end

end ValueType

namespace Param

def encode (p : Param) : Value :=
  .object ([("name", .string p.name), ("type", p.type.encode)] ++
    (p.description.map fun d => ("description", Value.string d)).toList)

def decode? (v : Value) : Option Param := do
  let [name, type, description] ← fields? ["name", "type", "description"] v | none
  return ⟨← string? (← name), ← ValueType.decode? (← type), ← optional? string? description⟩

end Param

namespace Signature

def encode (s : Signature) : Value :=
  .object [("name", .string s.name), ("description", .string s.description),
    ("params", .array (s.params.map Param.encode))]

def decode? (v : Value) : Option Signature := do
  let [name, description, params] ← fields? ["name", "description", "params"] v | none
  return ⟨← string? (← name), ← string? (← description), ← optionalList? Param.decode? params⟩

end Signature

end ToolDialogue
