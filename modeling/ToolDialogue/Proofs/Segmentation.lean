import Mathlib.Data.List.Chain
import ToolDialogue.Proofs.OpenDelimiters
import ToolDialogue.Proofs.Segments

/-! The rules by which a text falls into segments: nothing is lost, literal text is one segment as
far as it reaches, an expression ends at the first delimiter that closes it, and no opening
delimiter that could be closed is left in literal text. A loop that searches for one opening
delimiter after the other comes to an end with these segments. -/
namespace ToolDialogue

namespace Segment

variable {d : Delimiters}

/-- Where the search for expressions stands: the literal text behind the last expression, as far
as it has been searched, and the text that has not. -/
structure Cursor where
  pending : List Char
  rest : List Char

namespace Cursor

/-- One round of the search: the segments that are found, and where it goes on. An opening
delimiter that nothing closes joins the literal text. -/
def step (d : Delimiters) (cursor : Cursor) : List Segment × Option Cursor :=
  let before := cursor.pending ++ cursor.rest.takeWhile (· != d.opener)
  match cursor.rest.dropWhile (· != d.opener) with
  | [] => (ofLiteral before, none)
  | opener :: behind =>
    match closing? d.opener d.closer 0 .outside behind with
    | some (body, after) => (ofLiteral before ++ [expression body], some ⟨[], after⟩)
    | none => ([], some ⟨before ++ [opener], behind⟩)

def run (d : Delimiters) : Nat → Cursor → Option (List Segment)
  | 0, _ => none
  | rounds + 1, cursor =>
    match cursor.step d with
    | (found, none) => some found
    | (found, some next) => (run d rounds next).map (found ++ ·)

def segments (d : Delimiters) (cursor : Cursor) : List Segment :=
  cursor.pending.foldr prepend (split d cursor.rest)

section step

variable {pending plain behind body after : List Char}

theorem segments_append (h : d.opener ∉ plain) (behind : List Char) :
    segments d ⟨pending, plain ++ behind⟩ = segments d ⟨pending ++ plain, behind⟩ := by
  rw [segments, segments, split_append h, List.foldr_append]

theorem step_plain (h : d.opener ∉ plain) :
    step d ⟨pending, plain⟩ = (ofLiteral (pending ++ plain), none) := by
  have hne := Text.bne_of_not_mem h
  rw [step, List.takeWhile_eq_self_iff.2 hne, List.dropWhile_eq_nil_iff.2 hne]

theorem step_closed (h : d.opener ∉ plain)
    (hclosing : closing? d.opener d.closer 0 .outside behind = some (body, after)) :
    step d ⟨pending, plain ++ d.opener :: behind⟩ =
      (ofLiteral (pending ++ plain) ++ [expression body], some ⟨[], after⟩) := by
  obtain ⟨htake, hdrop⟩ := Text.span_of_not_mem h behind
  simp only [step, htake, hdrop, hclosing]

theorem step_unclosed (h : d.opener ∉ plain)
    (hclosing : closing? d.opener d.closer 0 .outside behind = none) :
    step d ⟨pending, plain ++ d.opener :: behind⟩ =
      ([], some ⟨pending ++ plain ++ [d.opener], behind⟩) := by
  obtain ⟨htake, hdrop⟩ := Text.span_of_not_mem h behind
  simp only [step, htake, hdrop, hclosing]

theorem segments_plain (h : d.opener ∉ plain) :
    segments d ⟨pending, plain⟩ = ofLiteral (pending ++ plain) := by
  have hnone : NoLiteralFirst [] := by rintro _ _ ⟨⟩
  have hnil : split d [] = [] := by rw [split]
  rw [← List.append_nil plain, segments_append h, segments, hnil, foldr_prepend hnone,
    List.append_nil, List.append_nil]

theorem segments_closed
    (hclosing : closing? d.opener d.closer 0 .outside behind = some (body, after)) :
    segments d ⟨pending, d.opener :: behind⟩ =
      ofLiteral pending ++ [expression body] ++ segments d ⟨[], after⟩ := by
  have hnone : NoLiteralFirst (expression body :: split d after) := by rintro _ _ ⟨⟩
  rw [segments, split_of_closing? hclosing, foldr_prepend hnone, List.append_assoc]
  rfl

theorem segments_unclosed (hclosing : closing? d.opener d.closer 0 .outside behind = none) :
    segments d ⟨pending, d.opener :: behind⟩ = segments d ⟨pending ++ [d.opener], behind⟩ := by
  rw [segments, segments, split_of_unclosed hclosing, List.foldr_append]
  rfl

end step

/-- A round finds the next segments, and ends the search or shortens what is left to search. -/
theorem segments_eq_step (d : Delimiters) (cursor : Cursor) :
    (∃ found, cursor.step d = (found, none) ∧ cursor.segments d = found) ∨
      ∃ found next, cursor.step d = (found, some next) ∧
        next.rest.length < cursor.rest.length ∧
        cursor.segments d = found ++ next.segments d := by
  obtain ⟨pending, rest⟩ := cursor
  by_cases hmem : d.opener ∈ rest
  · obtain ⟨plain, behind, rfl, hplain⟩ := List.eq_append_cons_of_mem hmem
    right
    rw [segments_append hplain]
    cases hclosing : closing? d.opener d.closer 0 .outside behind with
    | some parts =>
      obtain ⟨body, after⟩ := parts
      have hless := length_lt_of_closing? hclosing
      refine ⟨_, _, step_closed hplain hclosing, ?_, segments_closed hclosing⟩
      simp
      omega
    | none =>
      refine ⟨_, _, step_unclosed hplain hclosing, ?_, segments_unclosed hclosing⟩
      simp
      omega
  · exact .inl ⟨_, step_plain hmem, segments_plain hmem⟩

theorem run_eq {rounds : Nat} {cursor : Cursor} (h : cursor.rest.length < rounds) :
    run d rounds cursor = some (cursor.segments d) := by
  induction rounds generalizing cursor with
  | zero => omega
  | succ rounds ih =>
    rcases segments_eq_step d cursor with ⟨found, hstep, hfound⟩ |
      ⟨found, next, hstep, hless, hfound⟩
    · simp only [run, hstep, hfound]
    · simp only [run, hstep, ih (Nat.lt_of_lt_of_le hless (Nat.lt_succ_iff.1 h)), hfound,
        Option.map_some]

end Cursor

def isLiteral : Segment → Bool
  | literal _ => true
  | expression _ => false

/-- Literal text is never empty, and never a segment behind another one of literal text. -/
structure WellSplit (segments : List Segment) : Prop where
  filled : literal [] ∉ segments
  apart : segments.IsChain fun a b => ¬ (a.isLiteral ∧ b.isLiteral)

theorem WellSplit.prepend {segments : List Segment} (h : WellSplit segments) (c : Char) :
    WellSplit (prepend c segments) := by
  obtain ⟨hfilled, hapart⟩ := h
  cases segments with
  | nil => exact ⟨by simp [Segment.prepend], .singleton _⟩
  | cons first rest =>
    cases first with
    | literal text =>
      refine ⟨by simp_all [Segment.prepend], ?_⟩
      cases rest with
      | nil => exact .singleton _
      | cons second rest => simpa [Segment.prepend, isLiteral] using hapart
    | expression body =>
      refine ⟨by simp_all [Segment.prepend], ?_⟩
      simpa [Segment.prepend, isLiteral] using hapart

theorem wellSplit_split (d : Delimiters) (text : List Char) : WellSplit (split d text) := by
  fun_induction split d text with
  | case1 => exact ⟨by simp, .nil⟩
  | case2 rest body after _ ih =>
    refine ⟨by simpa using ih.filled, ?_⟩
    rw [List.isChain_cons_iff]
    cases hsplit : split d after with
    | nil => exact .inl rfl
    | cons first more => exact .inr ⟨first, more, by simp [isLiteral], hsplit ▸ ih.apart, rfl⟩
  | case3 rest _ ih | case4 c rest _ ih => exact ih.prepend _

/-- A segment stands where it stood before a character was put in front, unless it is the literal
text that now starts with this character. -/
theorem prepend_eq_append_cons {c : Char} {segments before after : List Segment} {s : Segment}
    (h : prepend c segments = before ++ s :: after) :
    (∃ start, segments = start ++ s :: after) ∨
      ∃ text, s = literal (c :: text) ∧
        (segments = literal text :: after ∨ text = [] ∧ segments = after) := by
  cases before with
  | nil =>
    right
    cases segments with
    | nil =>
      cases h
      exact ⟨[], rfl, .inr ⟨rfl, rfl⟩⟩
    | cons first rest =>
      cases first with
      | literal text =>
        cases h
        exact ⟨text, rfl, .inl rfl⟩
      | expression body =>
        cases h
        exact ⟨[], rfl, .inr ⟨rfl, rfl⟩⟩
  | cons front before =>
    left
    cases segments with
    | nil =>
      simp [prepend] at h
    | cons first rest =>
      cases first with
      | literal text =>
        obtain ⟨-, rfl⟩ := List.cons.inj h
        exact ⟨literal text :: before, rfl⟩
      | expression body =>
        obtain ⟨-, h⟩ := List.cons.inj h
        exact ⟨before, h⟩

variable {text body start behind : List Char} {before after : List Segment}

theorem closesFirst_of_split (h : split d text = before ++ expression body :: after) :
    ClosesFirst d.opener d.closer (body ++ d.closer :: after.flatMap (source d)) body
      (after.flatMap (source d)) := by
  fun_induction split d text generalizing before with
  | case1 => simp at h
  | case2 rest inner behind hclosing ih =>
    cases before with
    | nil =>
      obtain ⟨hinner, rfl⟩ := List.cons.inj h
      cases hinner
      rw [flatMap_source_split]
      have := closesFirst_of_closing? hclosing
      rwa [this.text_eq] at this
    | cons front before => exact ih (List.cons.inj h).2
  | case3 rest _ ih | case4 c rest _ ih =>
    rcases prepend_eq_append_cons h with ⟨start, hstart⟩ | ⟨text, hliteral, -⟩
    · exact ih hstart
    · contradiction

theorem prepend_eq_append_literal {c x : Char} {segments : List Segment}
    (h : prepend c segments = before ++ literal (start ++ x :: behind) :: after) :
    (∃ before start, segments = before ++ literal (start ++ x :: behind) :: after) ∨
      c = x ∧ segments.flatMap (source d) = behind ++ after.flatMap (source d) := by
  rcases prepend_eq_append_cons h with ⟨earlier, hearlier⟩ | ⟨text, hliteral, hsegments⟩
  · exact .inl ⟨earlier, start, hearlier⟩
  · have htext : start ++ x :: behind = c :: text := Segment.literal.inj hliteral
    cases start with
    | nil =>
      obtain ⟨rfl, rfl⟩ := List.cons.inj htext
      right
      rcases hsegments with rfl | ⟨rfl, rfl⟩
      · exact ⟨rfl, rfl⟩
      · exact ⟨rfl, rfl⟩
    | cons front start =>
      obtain ⟨-, rfl⟩ := List.cons.inj htext
      left
      rcases hsegments with rfl | ⟨hnil, -⟩
      · exact ⟨[], start, rfl⟩
      · simp at hnil

theorem staysOpen_of_split
    (h : split d text = before ++ literal (start ++ d.opener :: behind) :: after) :
    StaysOpen d.opener d.closer (behind ++ after.flatMap (source d)) := by
  fun_induction split d text generalizing before start with
  | case1 => simp at h
  | case2 rest inner behind _ ih =>
    cases before with
    | nil => cases (List.cons.inj h).1
    | cons front before => exact ih (List.cons.inj h).2
  | case3 rest hclosing ih =>
    rcases prepend_eq_append_literal (d := d) h with ⟨before, start, hrest⟩ | ⟨-, hrest⟩
    · exact ih hrest
    · rw [← hrest, flatMap_source_split]
      exact staysOpen_of_closing? hclosing
  | case4 c rest hne ih =>
    rcases prepend_eq_append_literal (d := d) h with ⟨before, start, hrest⟩ | ⟨hc, -⟩
    · exact ih hrest
    · exact absurd hc hne

/-- The rules by which a text falls into segments. -/
theorem split_by_rules (d : Delimiters) (text : List Char) :
    Cursor.run d (text.length + 1) ⟨[], text⟩ = some (split d text) ∧
      (split d text).flatMap (source d) = text ∧
      WellSplit (split d text) ∧
      (∀ before body after, split d text = before ++ expression body :: after →
        ClosesFirst d.opener d.closer (body ++ d.closer :: after.flatMap (source d)) body
          (after.flatMap (source d))) ∧
      ∀ before start behind after,
        split d text = before ++ literal (start ++ d.opener :: behind) :: after →
          StaysOpen d.opener d.closer (behind ++ after.flatMap (source d)) :=
  ⟨Cursor.run_eq (Nat.lt_succ_self _), flatMap_source_split d text, wellSplit_split d text,
    fun _ _ _ => closesFirst_of_split, fun _ _ _ _ => staysOpen_of_split⟩

end Segment

end ToolDialogue
