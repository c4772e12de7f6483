/-! Cutting text at a mark: at its start, or at its first occurrence. -/
namespace ToolDialogue.Text

/-- What follows `mark` in a text that starts with it. -/
def dropMark? (mark text : List Char) : Option (List Char) :=
  mark.isPrefixOf? text

/-- The parts of a text before and after the first occurrence of `mark`. -/
def cutAt? (mark : List Char) : List Char → Option (List Char × List Char)
  | [] => if mark.isEmpty then some ([], []) else none
  | c :: rest =>
    match dropMark? mark (c :: rest) with
    | some after => some ([], after)
    | none => (cutAt? mark rest).map fun parts => (c :: parts.1, parts.2)

end ToolDialogue.Text
