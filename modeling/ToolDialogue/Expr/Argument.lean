import ToolDialogue.Expr.Call
import ToolDialogue.Json.Number

/-! Arguments sorted by the shape in which they are written, without regard to declared types. -/
namespace ToolDialogue

open Text

inductive Argument where
  /-- A number by the grammar of JSON. -/
  | number (n : Json.Number)
  /-- `true` or `false` in any case. -/
  | boolean (b : Bool)
  /-- A quoted literal, without its quotes and with its escapes resolved. -/
  | quoted (content : String)
  /-- Text of no other shape. -/
  | bare (content : String)
  /-- A call expression, not evaluated. -/
  | call (c : Call)
  /-- A list in square brackets. -/
  | group (items : List Argument)

/-- How many groups may stand directly in one another; a deeper one is bare text. -/
def groupLimit : Nat := 16

/-- Resolves backslash escapes: `\n` and `\t` are control characters, any other escaped
character is itself, and a backslash at the end stays. -/
def unescape : List Char → List Char
  | '\\' :: 'n' :: rest => '\n' :: unescape rest
  | '\\' :: 't' :: rest => '\t' :: unescape rest
  | '\\' :: c :: rest => c :: unescape rest
  | c :: rest => c :: unescape rest
  | [] => []

/-- The content of a text that starts and ends with the same quote, double or single. -/
def unquote? : List Char → Option (List Char)
  | [] => none
  | q :: rest =>
    if (q = '"' ∨ q = '\x27') ∧ rest.getLast? = some q then some (unescape rest.dropLast) else none

/-- The text between an opening square bracket at the start and a closing one at the end. -/
def unbracket? : List Char → Option (List Char)
  | '[' :: rest => if rest.getLast? = some ']' then some rest.dropLast else none
  | _ => none

/-- `true` or `false` in any case. -/
def readBoolean? (text : List Char) : Option Bool :=
  if sameIgnoringCase text "true".toList then some true
  else if sameIgnoringCase text "false".toList then some false
  else none

namespace Argument

/-- The call that the text of a call spells. -/
def call? (text : List Char) : Option Call :=
  if isCallText text then (Call.read text).toOption else none

/-- The shape of a text that is neither a call nor a group. -/
def plain (text : List Char) : Argument :=
  match Json.Number.ofText? text with
  | some n => number n
  | none => bare (String.ofList text)

/-- The shape of a text; `calls` tells whether the text of a call is a call, and `room` how many
groups may still nest. -/
def read (calls : Bool) : Nat → List Char → Argument
  | room, text =>
    let text := trim text
    match if calls then call? text else none with
    | some c => call c
    | none =>
      match unquote? text with
      | some content => quoted (String.ofList content)
      | none =>
        match readBoolean? text with
        | some b => boolean b
        | none =>
          match unbracket? text, room with
          | none, _ => plain text
          | some _, 0 => bare (String.ofList text)
          | some inner, room + 1 => group ((splitArgs inner).map (read calls room))

/-- An argument as it is written in a call. -/
def ofText (text : String) : Argument :=
  read true groupLimit text.toList

/-- The result of a call as an argument. It is a value: what looks like a call stays text. -/
def ofResult (text : String) : Argument :=
  read false groupLimit text.toList

/-- The argument as plain text, without quotes. -/
def text : Argument → String
  | number n => n.text
  | boolean b => if b then "true" else "false"
  | quoted content => content
  | bare content => content
  | call c => c.text
  | group items => "[" ++ ", ".intercalate (items.map text) ++ "]"

/-- The name of the shape in messages. -/
def shape : Argument → String
  | number _ => "number"
  | boolean _ => "boolean"
  | quoted _ => "string"
  | bare _ => "string"
  | call _ => "call"
  | group _ => "group"

end Argument

end ToolDialogue
