import Mathlib.Data.Int.Notation
import ToolDialogue.Proofs.Scanning

/-! How many delimiters are open behind a text. The delimiter that closes an expression is the first
one that leaves none of them open. -/
namespace ToolDialogue

namespace Quote

def after (q : Quote) (text : List Char) : Quote :=
  text.foldl next q

@[simp] theorem after_nil (q : Quote) : q.after [] = q := rfl

@[simp] theorem after_cons (q : Quote) (c : Char) (text : List Char) :
    q.after (c :: text) = (q.next c).after text := rfl

theorem after_append (q : Quote) (a b : List Char) : q.after (a ++ b) = (q.after a).after b :=
  List.foldl_append

end Quote

section openBehind

variable (opener closer : Char)

/-- What a character adds to the number of open delimiters. One that is both closes. -/
def tally (q : Quote) (x : Char) : Int :=
  if q.sees x && x == closer then -1 else if q.sees x && x == opener then 1 else 0

/-- How many delimiters are open behind a text if there are `n` in front of it. -/
def openBehind (n : Int) : Quote → List Char → Int
  | _, [] => n
  | q, x :: rest => openBehind (n + tally opener closer q x) (q.next x) rest

/-- The delimiter behind `body` is the first one in the text to leave nothing open, not even what
is opened in front of the text. -/
structure ClosesFirst (text body rest : List Char) : Prop where
  text_eq : text = body ++ closer :: rest
  closed : openBehind opener closer 1 .outside (body ++ [closer]) = 0
  first : ∀ start, start <+: body → 0 < openBehind opener closer 1 .outside start

/-- What is opened in front of the text stays open all through it. -/
def StaysOpen (text : List Char) : Prop :=
  ∀ start, start <+: text → 0 < openBehind opener closer 1 .outside start

end openBehind

variable {o c : Char} {depth : Nat} {q : Quote} {text body rest : List Char}

theorem closing?_cons (o c : Char) (depth : Nat) (q : Quote) (x : Char) (text : List Char) :
    (x = c ∧ depth + tally o c q x = -1 ∧ closing? o c depth q (x :: text) = some ([], text)) ∨
      ∃ behind : Nat, depth + tally o c q x = behind ∧ closing? o c depth q (x :: text) =
        (closing? o c behind (q.next x) text).map (inFront [x]) := by
  rw [closing?.eq_def, tally]
  dsimp only
  split
  · rename_i hx
    cases depth with
    | zero => exact .inl ⟨by simp_all, rfl, rfl⟩
    | succ depth => exact .inr ⟨depth, by omega, rfl⟩
  · split
    · exact .inr ⟨depth + 1, by omega, rfl⟩
    · exact .inr ⟨depth, by omega, rfl⟩

theorem forall_prefix_cons {P : List Char → Prop} {x : Char} :
    (∀ start, start <+: x :: text → P start) ↔
      P [] ∧ ∀ start, start <+: text → P (x :: start) := by
  constructor
  · exact fun h => ⟨h [] List.nil_prefix, fun start hstart =>
      h _ (List.prefix_cons_iff.2 (.inr ⟨start, rfl, hstart⟩))⟩
  · rintro ⟨hnil, hcons⟩ start hstart
    rcases List.prefix_cons_iff.1 hstart with rfl | ⟨t, rfl, ht⟩
    · exact hnil
    · exact hcons t ht

theorem openBehind_of_closing? (h : closing? o c depth q text = some (body, rest)) :
    openBehind o c (depth + 1) q (body ++ [c]) = 0 ∧
      ∀ start, start <+: body → 0 < openBehind o c (depth + 1) q start := by
  induction text generalizing depth q body with
  | nil => contradiction
  | cons x text ih =>
    rcases closing?_cons o c depth q x text with ⟨rfl, hdepth, hstep⟩ | ⟨behind, hdepth, hstep⟩
    · rw [hstep] at h
      cases h
      refine ⟨?_, fun start hstart => ?_⟩
      · rw [List.nil_append, openBehind, openBehind]
        omega
      · rw [List.prefix_nil.1 hstart, openBehind]
        omega
    · rw [hstep] at h
      obtain ⟨⟨inner, after⟩, hinner, heq⟩ := Option.map_eq_some_iff.1 h
      cases heq
      have hcount : (depth : Int) + 1 + tally o c q x = behind + 1 := by omega
      obtain ⟨hclosed, hfirst⟩ := ih hinner
      rw [List.singleton_append, forall_prefix_cons]
      simp only [List.cons_append, openBehind, hcount]
      exact ⟨hclosed, by omega, hfirst⟩

theorem openBehind_of_closing?_eq_none (h : closing? o c depth q text = none) :
    ∀ start, start <+: text → 0 < openBehind o c (depth + 1) q start := by
  induction text generalizing depth q with
  | nil =>
    intro start hstart
    rw [List.prefix_nil.1 hstart, openBehind]
    omega
  | cons x text ih =>
    rcases closing?_cons o c depth q x text with ⟨-, -, hstep⟩ | ⟨behind, hdepth, hstep⟩
    · rw [hstep] at h
      contradiction
    · rw [hstep, Option.map_eq_none_iff] at h
      have hcount : (depth : Int) + 1 + tally o c q x = behind + 1 := by omega
      rw [forall_prefix_cons]
      simp only [openBehind, hcount]
      exact ⟨by omega, ih h⟩

theorem closesFirst_of_closing? (h : closing? o c 0 .outside text = some (body, rest)) :
    ClosesFirst o c text body rest where
  text_eq := eq_of_closing? h
  closed := (openBehind_of_closing? h).1
  first := (openBehind_of_closing? h).2

theorem staysOpen_of_closing? (h : closing? o c 0 .outside text = none) : StaysOpen o c text :=
  openBehind_of_closing?_eq_none h

end ToolDialogue
