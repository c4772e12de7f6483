/-! Scanning state for double-quoted literals, and the search for a closing delimiter. Inside a
literal a backslash escapes the next character; no other character there has a meaning. -/
namespace ToolDialogue

/-- Where a scanner stands relative to double-quoted literals. -/
inductive Quote where
  | outside
  | inside
  | escaped
  deriving DecidableEq, Repr

namespace Quote

/-- The state after reading `c`. -/
def next (q : Quote) (c : Char) : Quote :=
  match q with
  | outside => if c = '"' then inside else outside
  | inside => if c = '\\' then escaped else if c = '"' then outside else inside
  | escaped => inside

/-- Whether `c` may shape an expression: it stands outside every literal and opens none. -/
def sees (q : Quote) (c : Char) : Bool :=
  q = outside && c ≠ '"'

@[simp] theorem sees_outside (c : Char) : outside.sees c = decide (c ≠ '"') := rfl
@[simp] theorem sees_inside (c : Char) : inside.sees c = false := rfl
@[simp] theorem sees_escaped (c : Char) : escaped.sees c = false := rfl

theorem next_of_sees {q : Quote} {c : Char} (h : q.sees c = true) : q.next c = outside := by
  cases q <;> simp_all [next]

end Quote

/-- Cuts a text that follows an opening delimiter at the delimiter that closes it, and gives
the parts before and after. `depth` counts the openings inside it that are still unclosed.
Where one character is both delimiters it closes. -/
def closing? (opener closer : Char) : Nat → Quote → List Char → Option (List Char × List Char)
  | _, _, [] => none
  | depth, q, c :: rest =>
    if q.sees c && c == closer then
      match depth with
      | 0 => some ([], rest)
      | depth + 1 => (closing? opener closer depth (q.next c) rest).map (Prod.map (c :: ·) id)
    else if q.sees c && c == opener then
      (closing? opener closer (depth + 1) (q.next c) rest).map (Prod.map (c :: ·) id)
    else
      (closing? opener closer depth (q.next c) rest).map (Prod.map (c :: ·) id)

/-- Nothing but the closing delimiter is lost. -/
theorem eq_of_closing? {opener closer : Char} {depth : Nat} {q : Quote}
    {text body rest : List Char} (h : closing? opener closer depth q text = some (body, rest)) :
    text = body ++ closer :: rest := by
  fun_induction closing? opener closer depth q text generalizing body with
  | case1 => simp at h
  | case2 q c text hc => simp_all
  | case3 q c text hc depth ih | case4 depth q c text _ _ ih | case5 depth q c text _ _ ih =>
    obtain ⟨⟨inner, after⟩, hp, he⟩ := Option.map_eq_some_iff.1 h
    obtain ⟨rfl, rfl⟩ := Prod.mk.inj he
    exact congrArg (c :: ·) (ih hp)

theorem length_lt_of_closing? {opener closer : Char} {depth : Nat} {q : Quote}
    {text body rest : List Char} (h : closing? opener closer depth q text = some (body, rest)) :
    rest.length < text.length := by
  rw [eq_of_closing? h, List.length_append, List.length_cons]
  omega

end ToolDialogue
