import ToolDialogue.Expr.Quote
import ToolDialogue.Text.Blank

/-! Call expressions `name(a, b)`. Reading is shallow: a call keeps its arguments as text, and a
nested call such as `inner(1, 2)` is one argument. A comma separates arguments where it stands
outside brackets of every kind and outside double-quoted literals. -/
namespace ToolDialogue

open Text

/-- A name and the texts of its arguments. -/
structure Call where
  name : String
  args : List String
  deriving DecidableEq, Repr, Inhabited

/-- Why a text is not a call expression. -/
inductive NotACall where
  | noParen (text : String)
  | noName (text : String)
  | unclosed (text : String)
  | trailing (text rest : String)
  deriving DecidableEq, Repr

def NotACall.message : NotACall → String
  | noParen text => s!"expected a call like `name(args)`, found `{text}`"
  | noName text => s!"call expression `{text}` has no function name"
  | unclosed text => s!"unbalanced parentheses in `{text}`"
  | trailing text rest => s!"unexpected `{rest}` after call expression `{text}`"

/-- Cuts a text at its top-level commas, giving the first piece and the others. A closing
bracket without an opening one is an ordinary character. -/
def cutAtCommas : Nat → Quote → List Char → List Char × List (List Char)
  | _, _, [] => ([], [])
  | depth, q, c :: rest =>
    if q.sees c && c == ',' && depth == 0 then
      let (first, others) := cutAtCommas 0 (q.next c) rest
      ([], first :: others)
    else
      let depth :=
        if q.sees c && (c == '(' || c == '[' || c == '\x7b') then depth + 1
        else if q.sees c && (c == ')' || c == ']' || c == '\x7d') then depth - 1
        else depth
      (cutAtCommas depth (q.next c) rest).map (c :: ·) id

/-- The trimmed pieces between top-level commas; a blank text has none. -/
def splitArgs (body : List Char) : List (List Char) :=
  if (trim body).isEmpty then []
  else
    let (first, others) := cutAtCommas 0 .outside body
    (first :: others).map trim

def isNameStart (c : Char) : Bool :=
  c.isAlpha || c = '_'

def isNameChar (c : Char) : Bool :=
  c.isAlphanum || c = '_' || c = '.' || c = ':'

/-- Identifiers are ASCII: a letter or `_`, then letters, digits, `_`, `.` and `:`. -/
def isIdentifier : List Char → Bool
  | [] => false
  | c :: rest => isNameStart c && rest.all isNameChar

/-- Whether a text is an identifier, a balanced list of arguments in parentheses, and nothing
else. -/
def isCallText (text : List Char) : Bool :=
  let text := trim text
  match text.dropWhile (· != '(') with
  | [] => false
  | _ :: inner =>
    isIdentifier (trimEnd (text.takeWhile (· != '('))) &&
      match closing? '(' ')' 0 .outside inner with
      | some (_, rest) => rest.isEmpty
      | none => false

namespace Call

/-- Reads a whole text as one call expression. -/
def read (text : List Char) : Except NotACall Call :=
  let text := trim text
  let shown := String.ofList text
  match text.dropWhile (· != '(') with
  | [] => .error (.noParen shown)
  | _ :: inner =>
    let name := trim (text.takeWhile (· != '('))
    if name.isEmpty then .error (.noName shown)
    else
      match closing? '(' ')' 0 .outside inner with
      | none => .error (.unclosed shown)
      | some (body, rest) =>
        let rest := trim rest
        if rest.isEmpty then .ok ⟨String.ofList name, (splitArgs body).map String.ofList⟩
        else .error (.trailing shown (String.ofList rest))

def ofText (text : String) : Except NotACall Call :=
  read text.toList

/-- The call as an expression. -/
def text (call : Call) : String :=
  call.name ++ "(" ++ ", ".intercalate call.args ++ ")"

end Call

end ToolDialogue
