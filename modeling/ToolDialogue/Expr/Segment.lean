import ToolDialogue.Expr.Quote

/-! Free text with delimited expressions in it. Delimiters nest, and inside a double-quoted
literal of an expression they have no meaning. An opening delimiter that nothing closes is an
ordinary character. -/
namespace ToolDialogue

/-- The delimiters of expressions. -/
structure Delimiters where
  opener : Char
  closer : Char
  deriving DecidableEq, Repr

def Delimiters.braces : Delimiters :=
  ⟨'\x7b', '\x7d'⟩

instance : Inhabited Delimiters := ⟨.braces⟩

/-- A piece of text; an expression is held without its delimiters. -/
inductive Segment where
  | literal (text : List Char)
  | expression (text : List Char)
  deriving DecidableEq, Repr

namespace Segment

/-- Puts a character in front of literal text. -/
def prepend (c : Char) : List Segment → List Segment
  | literal text :: rest => literal (c :: text) :: rest
  | segments => literal [c] :: segments

/-- The segments of a text, from left to right. -/
def split (d : Delimiters) : List Char → List Segment
  | [] => []
  | c :: rest =>
    if c = d.opener then
      match _h : closing? d.opener d.closer 0 .outside rest with
      | some (body, after) => expression body :: split d after
      | none => prepend c (split d rest)
    else prepend c (split d rest)
termination_by text => text.length
decreasing_by
  · exact Nat.lt_succ_of_lt (length_lt_of_closing? (by assumption))
  · simp
  · simp

/-- The text of a segment in the text it was split from. -/
def source (d : Delimiters) : Segment → List Char
  | literal text => text
  | expression text => d.opener :: text ++ [d.closer]

end Segment

end ToolDialogue
