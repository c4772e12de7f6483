import ToolDialogue.Proofs.OpenDelimiters
import ToolDialogue.Proofs.Reading

/-! Which texts that start with a double quote are one quoted literal. A scanner knows where the
literal ends, but a text is taken for one literal as soon as its last character is a quote as well,
be it the end of another literal or an escaped one. -/
namespace ToolDialogue

open Text

/-- What stands behind the literal in which the scanner is; nothing if it is never closed. -/
def behindLiteral? : Quote → List Char → Option (List Char)
  | _, [] => none
  | q, c :: rest => if q.next c = .outside then some rest else behindLiteral? (q.next c) rest

section behindLiteral

variable {q : Quote} {c : Char} {text body rest more : List Char}

def Within (q : Quote) (text : List Char) : Prop :=
  ∀ start, start <+: text → q.after start ≠ .outside

theorem within_cons : Within q (c :: text) ↔ q ≠ .outside ∧ Within (q.next c) text :=
  forall_prefix_cons

theorem Quote.next_eq_outside (hq : q ≠ .outside) :
    q.next c = .outside ↔ q = .inside ∧ c = '"' := by
  cases q with
  | outside => contradiction
  | inside =>
    by_cases hslash : c = '\\'
    · subst hslash
      simp [Quote.next]
    · simp [Quote.next, hslash]
  | escaped => simp [Quote.next]

theorem behindLiteral?_append (h : Within q body) (rest : List Char) :
    behindLiteral? q (body ++ rest) = behindLiteral? (q.after body) rest := by
  induction body generalizing q with
  | nil => rfl
  | cons c body ih =>
    obtain ⟨-, hbody⟩ := within_cons.1 h
    have hc : q.next c ≠ .outside := hbody [] List.nil_prefix
    rw [List.cons_append, behindLiteral?, if_neg hc, ih hbody]
    rfl

theorem within_of_behindLiteral?_eq_none (hq : q ≠ .outside) (h : behindLiteral? q text = none) :
    Within q text := by
  induction text generalizing q with
  | nil =>
    intro start hstart
    rwa [List.prefix_nil.1 hstart]
  | cons c text ih =>
    rw [behindLiteral?] at h
    split at h
    · contradiction
    · exact within_cons.2 ⟨hq, ih (by assumption) h⟩

theorem exists_of_behindLiteral?_eq_some (hq : q ≠ .outside) (h : behindLiteral? q text = some more) :
    ∃ body, text = body ++ '"' :: more ∧ q.after body = .inside ∧ Within q body := by
  induction text generalizing q with
  | nil => contradiction
  | cons c text ih =>
    rw [behindLiteral?] at h
    split at h
    · rename_i hc
      obtain ⟨rfl, rfl⟩ := (Quote.next_eq_outside hq).1 hc
      cases h
      refine ⟨[], rfl, rfl, fun start hstart => ?_⟩
      rwa [List.prefix_nil.1 hstart]
    · rename_i hc
      obtain ⟨body, rfl, hafter, hbody⟩ := ih hc h
      exact ⟨c :: body, rfl, hafter, within_cons.2 ⟨hq, hbody⟩⟩

theorem behindLiteral?_eq_some_iff (hq : q ≠ .outside) : behindLiteral? q text = some more ↔
    ∃ body, text = body ++ '"' :: more ∧ q.after body = .inside ∧ Within q body := by
  refine ⟨exists_of_behindLiteral?_eq_some hq, ?_⟩
  rintro ⟨body, rfl, hafter, hbody⟩
  rw [behindLiteral?_append hbody, hafter]
  rfl

theorem getLast?_iff_escaped (hopen : behindLiteral? .inside rest = none) :
    rest.getLast? = some '"' ↔ ∃ body, rest = body ++ ['"'] ∧ Quote.inside.after body = .escaped := by
  constructor
  · intro hlast
    obtain ⟨body, rfl⟩ := List.getLast?_eq_some_iff.1 hlast
    refine ⟨body, rfl, ?_⟩
    have hwithin := within_of_behindLiteral?_eq_none (by decide) hopen
    have hbody := hwithin body (List.prefix_append _ _)
    have hwhole := hwithin _ List.prefix_rfl
    rw [Quote.after_append] at hwhole
    cases hafter : Quote.inside.after body with
    | outside => exact absurd hafter hbody
    | inside => simp [hafter, Quote.next] at hwhole
    | escaped => rfl
  · rintro ⟨body, rfl, -⟩
    exact List.getLast?_concat

end behindLiteral

namespace Argument

variable {calls : Bool} {room : Nat} {text rest : List Char}

theorem plain_ne_quoted (text : List Char) (content : String) : plain text ≠ quoted content := by
  unfold plain
  split <;> simp

theorem read_eq_quoted_iff (hcall : (if calls then call? (trim text) else none) = none)
    {content : String} : read calls room text = quoted content ↔
      ∃ body, unquote? (trim text) = some body ∧ content = String.ofList body := by
  constructor
  · intro hread
    rcases read_shapes calls text with ⟨_, -, -, h⟩ | ⟨body, hq, h⟩ | ⟨_, -, h⟩ |
      ⟨_, -, hfull, hgroup⟩ | ⟨-, -, -, h⟩
    · rw [h] at hread
      contradiction
    · rw [h] at hread
      exact ⟨body, hq, (quoted.inj hread).symm⟩
    · rw [h] at hread
      contradiction
    · cases room with
      | zero =>
        rw [hfull] at hread
        contradiction
      | succ room =>
        rw [hgroup] at hread
        contradiction
    · rw [h] at hread
      exact absurd hread (plain_ne_quoted _ content)
  · rintro ⟨body, hbody, rfl⟩
    exact read_of_quoted hcall hbody

section opened

variable (htext : trim text = '"' :: rest)
include htext

theorem read_opened {body : List Char} (hrest : rest = body ++ ['"']) :
    read calls room text = quoted (String.ofList (unescape body)) := by
  have hquotes : trim text = trim ('"' :: body ++ ['"']) := by
    rw [(Solid.enclosed (by decide) (by decide)).trim_eq, htext, hrest]
    rfl
  rw [read_congr calls room hquotes, read_of_quotes (.inl rfl)]

theorem exists_quoted_iff :
    (∃ content, read calls room text = quoted content) ↔ rest.getLast? = some '"' := by
  constructor
  · rintro ⟨content, hread⟩
    have hcall : (if calls then call? (trim text) else none) = none := by
      rw [htext, call?_eq_none (by decide) (by decide), ite_self]
    obtain ⟨_, hq, -⟩ := (read_eq_quoted_iff hcall).1 hread
    rw [htext] at hq
    obtain ⟨q, body, -, hbody, -⟩ := unquote?_eq_some_iff.1 hq
    obtain ⟨rfl, rfl⟩ := List.cons.inj hbody
    exact List.getLast?_concat
  · intro hlast
    obtain ⟨body, hrest⟩ := List.getLast?_eq_some_iff.1 hlast
    exact ⟨_, read_opened htext hrest⟩

/-- A text that is one literal is read as one, with what stands between the quotes. So is a text
that goes on behind its literal, if a quote stands at its end, and one whose literal is never
closed, if an escaped quote does. -/
theorem read_first_literal (calls : Bool) (room : Nat) :
    (behindLiteral? .inside rest = some [] → ∃ body, rest = body ++ ['"'] ∧
        read calls room text = quoted (String.ofList (unescape body))) ∧
      (∀ more, behindLiteral? .inside rest = some more → more ≠ [] →
        ((∃ content, read calls room text = quoted content) ↔ more.getLast? = some '"')) ∧
      (behindLiteral? .inside rest = none → ((∃ content, read calls room text = quoted content) ↔
        ∃ body, rest = body ++ ['"'] ∧ Quote.inside.after body = .escaped)) := by
  refine ⟨fun hclosed => ?_, fun more hmore hne => ?_, fun hopen => ?_⟩
  · obtain ⟨body, hrest, -⟩ := (behindLiteral?_eq_some_iff (by decide)).1 hclosed
    exact ⟨body, hrest, read_opened htext hrest⟩
  · obtain ⟨body, rfl, -⟩ := (behindLiteral?_eq_some_iff (by decide)).1 hmore
    obtain ⟨front, last, rfl⟩ := (List.eq_nil_or_concat more).resolve_left hne
    rw [exists_quoted_iff htext, List.concat_eq_append, ← List.cons_append, ← List.append_assoc,
      List.getLast?_concat, List.getLast?_concat]
  · rw [exists_quoted_iff htext, getLast?_iff_escaped hopen]

end opened

/-- Escaped quotes do not close a literal. -/
theorem read_one_literal :
    trim " \"say \\\"hi\\\"\" ".toList = '"' :: "say \\\"hi\\\"\"".toList ∧
      behindLiteral? .inside "say \\\"hi\\\"\"".toList = some [] ∧
      ofText " \"say \\\"hi\\\"\" " = quoted "say \"hi\"" ∧
      trim "\"a\" and b".toList = '"' :: "a\" and b".toList ∧
      ¬ ∃ content, ofText "\"a\" and b" = quoted content := by
  have hone : trim " \"say \\\"hi\\\"\" ".toList = '"' :: "say \\\"hi\\\"\"".toList := rfl
  have htwo : trim "\"a\" and b".toList = '"' :: "a\" and b".toList := rfl
  obtain ⟨hread, -, -⟩ := read_first_literal hone true groupLimit
  obtain ⟨-, hmore, -⟩ := read_first_literal htwo true groupLimit
  obtain ⟨body, hrest, hbody⟩ := hread rfl
  have hsay : "say \\\"hi\\\"".toList ++ ['"'] = body ++ ['"'] := hrest
  rw [← List.append_cancel_right hsay] at hbody
  refine ⟨hone, rfl, hbody, htwo, fun hquoted => ?_⟩
  exact absurd ((hmore " and b".toList rfl (by decide)).1 hquoted) (by decide)

/-- Two literals are taken for one, and so is a literal whose last quote is escaped. -/
theorem two_literals_read_as_one :
    behindLiteral? .inside "a\", \"b\"".toList = some ", \"b\"".toList ∧
      ofText "\"a\", \"b\"" = quoted "a\", \"b" ∧
      ofResult "\"a\", \"b\"" = quoted "a\", \"b" ∧
      behindLiteral? .inside "a\\\"".toList = none ∧
      ofText "\"a\\\"" = quoted "a\\" ∧ ofResult "\"a\\\"" = quoted "a\\" :=
  ⟨rfl, read_of_quoted rfl rfl, read_of_quoted rfl rfl, rfl, read_of_quoted rfl rfl,
    read_of_quoted rfl rfl⟩

end Argument

end ToolDialogue
