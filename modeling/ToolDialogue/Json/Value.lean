import ToolDialogue.Json.Number

/-! JSON values and their compact text: no blanks, and the members of an object in the order in
which the value holds them. -/
namespace ToolDialogue.Json

inductive Value where
  | null
  | bool (b : Bool)
  | number (n : Number)
  | string (s : String)
  | array (items : List Value)
  | object (members : List (String × Value))

instance : Inhabited Value := ⟨.null⟩

/-- The escape of a character inside a string: quote, backslash and control characters have
one, all others stand for themselves. -/
def escapeChar (c : Char) : List Char :=
  match c with
  | '"' => ['\\', '"']
  | '\\' => ['\\', '\\']
  | '\x08' => ['\\', 'b']
  | '\t' => ['\\', 't']
  | '\n' => ['\\', 'n']
  | '\x0c' => ['\\', 'f']
  | '\r' => ['\\', 'r']
  | c =>
    if c.toNat < 0x20 then
      ['\\', 'u', '0', '0', Nat.digitChar (c.toNat / 16), Nat.digitChar (c.toNat % 16)]
    else [c]

def quote (text : List Char) : List Char :=
  '"' :: text.flatMap escapeChar ++ ['"']

/-- Writes items with a comma between neighbours. -/
def commaSeparated : List (List Char) → List Char
  | [] => []
  | [item] => item
  | item :: rest => item ++ ',' :: commaSeparated rest

namespace Value

mutual

def chars : Value → List Char
  | null => "null".toList
  | bool b => (if b then "true" else "false").toList
  | number n => n.chars
  | string s => quote s.toList
  | array items => '[' :: commaSeparated (itemsChars items) ++ [']']
  | object members => '\x7b' :: commaSeparated (membersChars members) ++ ['\x7d']

def itemsChars : List Value → List (List Char)
  | [] => []
  | item :: rest => item.chars :: itemsChars rest

def membersChars : List (String × Value) → List (List Char)
  | [] => []
  | (key, value) :: rest => (quote key.toList ++ ':' :: value.chars) :: membersChars rest

end

/-- The compact text. -/
def text (v : Value) : String :=
  String.ofList v.chars

theorem itemsChars_eq (items : List Value) : itemsChars items = items.map chars := by
  induction items with
  | nil => rfl
  | cons item rest ih => rw [itemsChars, ih, List.map_cons]

theorem membersChars_eq (members : List (String × Value)) :
    membersChars members = members.map fun m => quote m.1.toList ++ ':' :: m.2.chars := by
  induction members with
  | nil => rfl
  | cons m rest ih => rw [membersChars, ih, List.map_cons]

def ofInt64 (n : Int64) : Value :=
  number (.ofInt64 n)

/-- The member with this key. -/
def member? (key : String) : Value → Option Value
  | object members => members.lookup key
  | _ => none

def toBool? : Value → Option Bool
  | bool b => some b
  | _ => none

def toNumber? : Value → Option Number
  | number n => some n
  | _ => none

def toString? : Value → Option String
  | string s => some s
  | _ => none

def toList? : Value → Option (List Value)
  | array items => some items
  | _ => none

def toInt64? (v : Value) : Option Int64 :=
  v.toNumber?.bind Number.toInt64?

def toFloat? (v : Value) : Option Float :=
  v.toNumber?.map Number.toFloat

end Value

end ToolDialogue.Json
