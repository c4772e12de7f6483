import ToolDialogue.Expr.Segment

/-! The segments of a text. Written one after another, each as it stood, they are the text; literal
text in front of them becomes a segment of its own. -/
namespace ToolDialogue

namespace Segment

/-- A literal text among segments; an empty one is no segment. -/
def ofLiteral (text : List Char) : List Segment :=
  if text.isEmpty then [] else [literal text]

def NoLiteralFirst (segments : List Segment) : Prop :=
  ∀ text rest, segments ≠ literal text :: rest

theorem foldr_prepend {segments : List Segment} (h : NoLiteralFirst segments) (text : List Char) :
    text.foldr prepend segments = ofLiteral text ++ segments := by
  induction text with
  | nil => rfl
  | cons c text ih =>
    rw [List.foldr_cons, ih]
    cases text with
    | nil =>
      cases segments with
      | nil => rfl
      | cons first rest =>
        cases first with
        | literal text => exact absurd rfl (h text rest)
        | expression text => rfl
    | cons => rfl

section split

variable {d : Delimiters}

theorem flatMap_source_prepend (c : Char) (segments : List Segment) :
    (prepend c segments).flatMap (source d) = c :: segments.flatMap (source d) := by
  cases segments with
  | nil => rfl
  | cons first rest => cases first <;> rfl

/-- Nothing of a text is lost. -/
theorem flatMap_source_split (d : Delimiters) (text : List Char) :
    (split d text).flatMap (source d) = text := by
  fun_induction split d text with
  | case1 => rfl
  | case2 rest body after hclosing ih =>
    rw [List.flatMap_cons, ih, eq_of_closing? hclosing, source]
    simp
  | case3 rest _ ih => rw [flatMap_source_prepend, ih]
  | case4 c rest _ ih => rw [flatMap_source_prepend, ih]

theorem split_cons_of_ne {c : Char} (h : c ≠ d.opener) (rest : List Char) :
    split d (c :: rest) = prepend c (split d rest) := by
  rw [split, if_neg h]

theorem split_append {text : List Char} (h : d.opener ∉ text) (rest : List Char) :
    split d (text ++ rest) = text.foldr prepend (split d rest) := by
  induction text with
  | nil => rfl
  | cons c text ih =>
    rw [List.mem_cons, not_or] at h
    rw [List.cons_append, split_cons_of_ne (Ne.symm h.1), ih h.2, List.foldr_cons]

theorem split_of_closing? {text body rest : List Char}
    (h : closing? d.opener d.closer 0 .outside text = some (body, rest)) :
    split d (d.opener :: text) = expression body :: split d rest := by
  rw [split, if_pos rfl]
  split
  · rename_i heq
    rw [h] at heq
    cases heq
    rfl
  · rename_i heq
    rw [h] at heq
    contradiction

theorem split_of_unclosed {text : List Char}
    (h : closing? d.opener d.closer 0 .outside text = none) :
    split d (d.opener :: text) = prepend d.opener (split d text) := by
  rw [split, if_pos rfl]
  split
  · rename_i heq
    rw [h] at heq
    contradiction
  · rfl

/-- Literal text in front of an expression, or of nothing. -/
theorem split_literal {text rest : List Char} (h : d.opener ∉ text)
    (hrest : NoLiteralFirst (split d rest)) :
    split d (text ++ rest) = ofLiteral text ++ split d rest := by
  rw [split_append h, foldr_prepend hrest]

end split

end Segment

end ToolDialogue
