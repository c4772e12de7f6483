import ToolDialogue.Json.Value

/-! Reading JSON text. Objects come out with their keys in ascending order, and of members with
equal keys the last one stays. Lists and objects may be nested 127 deep. -/
namespace ToolDialogue.Json

/-- Blanks of JSON text. -/
def isSpace (c : Char) : Bool :=
  c = ' ' || c = '\n' || c = '\t' || c = '\r'

def skipSpace (text : List Char) : List Char :=
  text.dropWhile isSpace

def hexDigit? (c : Char) : Option Nat :=
  if '0' ≤ c ∧ c ≤ '9' then some (c.toNat - '0'.toNat)
  else if 'a' ≤ c ∧ c ≤ 'f' then some (c.toNat - 'a'.toNat + 10)
  else if 'A' ≤ c ∧ c ≤ 'F' then some (c.toNat - 'A'.toNat + 10)
  else none

/-- The number that four hexadecimal digits spell. -/
def hexQuad? : List Char → Option (Nat × List Char)
  | a :: b :: c :: d :: rest => do
    let digits ← [a, b, c, d].mapM hexDigit?
    return (digits.foldl (fun n d => n * 16 + d) 0, rest)
  | _ => none

/-- The character behind `\u`; one outside the first plane takes two escapes, and half of such
a pair is refused. -/
def unicodeEscape? (text : List Char) : Option (Char × List Char) := do
  let (n, rest) ← hexQuad? text
  if 0xD800 ≤ n ∧ n < 0xDC00 then
    match rest with
    | '\\' :: 'u' :: rest =>
      let (low, rest) ← hexQuad? rest
      if 0xDC00 ≤ low ∧ low < 0xE000 then
        return (Char.ofNat (0x10000 + (n - 0xD800) * 0x400 + (low - 0xDC00)), rest)
      else none
    | _ => none
  else if 0xDC00 ≤ n ∧ n < 0xE000 then none
  else return (Char.ofNat n, rest)

def escape? : List Char → Option (Char × List Char)
  | '"' :: rest => some ('"', rest)
  | '\\' :: rest => some ('\\', rest)
  | '/' :: rest => some ('/', rest)
  | 'b' :: rest => some ('\x08', rest)
  | 'f' :: rest => some ('\x0c', rest)
  | 'n' :: rest => some ('\n', rest)
  | 'r' :: rest => some ('\r', rest)
  | 't' :: rest => some ('\t', rest)
  | 'u' :: rest => unicodeEscape? rest
  | _ => none

/-- Adds a member to members in ascending order of keys, in place of one with the same key. -/
def putMember (key : String) (value : Value) : List (String × Value) → List (String × Value)
  | [] => [(key, value)]
  | (k, v) :: rest =>
    if key < k then (key, value) :: (k, v) :: rest
    else if key = k then (key, value) :: rest
    else (k, v) :: putMember key value rest

namespace Reader

/-- Reads the rest of a string after its opening quote; `read` holds the characters so far, the
last one first. Each step uses up text, which `fuel` bounds. -/
def stringTail : Nat → List Char → List Char → Option (String × List Char)
  | 0, _, _ => none
  | _ + 1, _, [] => none
  | fuel + 1, read, c :: rest =>
    if c = '"' then some (String.ofList read.reverse, rest)
    else if c = '\\' then
      match escape? rest with
      | some (e, rest) => stringTail fuel (e :: read) rest
      | none => none
    else if c.toNat < 0x20 then none
    else stringTail fuel (c :: read) rest

/-- Drops `word` and returns `value`. -/
def word? (word : String) (value : Value) (text : List Char) : Option (Value × List Char) :=
  (word.toList.isPrefixOf? text).map fun rest => (value, rest)

mutual

/-- Reads a value at the start of a text; `depth` bounds how far lists and objects nest. -/
def value : Nat → Nat → List Char → Option (Value × List Char)
  | 0, _, _ => none
  | fuel + 1, depth, text =>
    match skipSpace text with
    | '"' :: rest => (stringTail fuel [] rest).map (Prod.map .string id)
    | '[' :: rest =>
      if depth = 0 then none
      else
        match skipSpace rest with
        | ']' :: rest => some (.array [], rest)
        | rest => items fuel (depth - 1) [] rest
    | '\x7b' :: rest =>
      if depth = 0 then none
      else
        match skipSpace rest with
        | '\x7d' :: rest => some (.object [], rest)
        | rest => members fuel (depth - 1) [] rest
    | 'n' :: rest => word? "ull" .null rest
    | 't' :: rest => word? "rue" (.bool true) rest
    | 'f' :: rest => word? "alse" (.bool false) rest
    | rest => (Number.read? rest).map (Prod.map .number id)

/-- Reads the items of a list up to its end; `read` holds those so far, the last one first. -/
def items : Nat → Nat → List Value → List Char → Option (Value × List Char)
  | 0, _, _, _ => none
  | fuel + 1, depth, read, text => do
    let (v, rest) ← value fuel depth text
    match skipSpace rest with
    | ',' :: rest => items fuel depth (v :: read) rest
    | ']' :: rest => some (.array (v :: read).reverse, rest)
    | _ => none

/-- Reads the members of an object up to its end. -/
def members : Nat → Nat → List (String × Value) → List Char → Option (Value × List Char)
  | 0, _, _, _ => none
  | fuel + 1, depth, read, text =>
    match skipSpace text with
    | '"' :: rest => do
      let (key, rest) ← stringTail fuel [] rest
      match skipSpace rest with
      | ':' :: rest =>
        let (v, rest) ← value fuel depth rest
        let read := putMember key v read
        match skipSpace rest with
        | ',' :: rest => members fuel depth read rest
        | '\x7d' :: rest => some (.object read, rest)
        | _ => none
      | _ => none
    | _ => none

end

end Reader

/-- How far lists and objects may nest. -/
def depthLimit : Nat := 127

/-- The value that the whole text spells. Every step of the reader uses up a character or goes
one level down, so twice the length bounds the steps. -/
def Value.ofText? (text : String) : Option Value :=
  let cs := text.toList
  match Reader.value (2 * cs.length + 2) depthLimit cs with
  | some (v, rest) => if (skipSpace rest).isEmpty then some v else none
  | none => none

end ToolDialogue.Json
