import Mathlib.Data.List.TakeWhile
import ToolDialogue.Expr.Argument

/-! Well-formed text under the scanners of expressions. A text is neutral when a scanner that
comes to it outside every literal is at the same depth behind it as before it; pieces of neutral
text between commas are what a list of arguments is cut into. -/
namespace ToolDialogue

namespace Text

theorem trimStart_append {gap text : List Char} (h : ∀ c ∈ gap, isBlank c = true) :
    trimStart (gap ++ text) = trimStart text :=
  List.dropWhile_append_of_pos h

theorem trimStart_eq_self {c : Char} {rest : List Char} (h : isBlank c = false) :
    trimStart (c :: rest) = c :: rest := by
  rw [trimStart, List.dropWhile_cons_of_neg (by simp [h])]

theorem trimEnd_eq_self {c : Char} {text : List Char} (h : isBlank c = false) :
    trimEnd (text ++ [c]) = text ++ [c] := by
  rw [trimEnd, List.reverse_append, List.reverse_singleton, List.singleton_append,
    List.dropWhile_cons_of_neg (by simp [h]), List.reverse_cons, List.reverse_reverse]

theorem trimEnd_cons {c : Char} (h : isBlank c = false) (rest : List Char) :
    trimEnd (c :: rest) = c :: trimEnd rest := by
  rw [trimEnd, trimEnd, List.reverse_cons, List.dropWhile_append]
  split
  · rename_i hblank
    simp [List.isEmpty_iff.1 hblank, h]
  · simp

theorem trim_cons {c : Char} (h : isBlank c = false) (rest : List Char) :
    trim (c :: rest) = c :: trimEnd rest := by
  rw [trim, trimStart_eq_self h, trimEnd_cons h]

theorem trimEnd_append {gap : List Char} (h : ∀ c ∈ gap, isBlank c = true) (text : List Char) :
    trimEnd (text ++ gap) = trimEnd text := by
  have hgap : ∀ c ∈ gap.reverse, isBlank c = true := fun c hc => h c (List.mem_reverse.1 hc)
  rw [trimEnd, trimEnd, List.reverse_append, List.dropWhile_append_of_pos hgap]

theorem trim_around {before behind : List Char} (hb : ∀ c ∈ before, isBlank c = true)
    (he : ∀ c ∈ behind, isBlank c = true) (text : List Char) :
    trim (before ++ text ++ behind) = trim text := by
  rw [trim, trim, List.append_assoc, trimStart_append hb, trimStart, List.dropWhile_append]
  split
  · rename_i hblank
    rw [List.dropWhile_eq_nil_iff.2 he, trimStart, List.isEmpty_iff.1 hblank]
  · exact trimEnd_append he _

theorem trim_eq_nil_iff {text : List Char} : trim text = [] ↔ ∀ c ∈ text, isBlank c = true := by
  rw [trim, trimEnd, List.reverse_eq_nil_iff, List.dropWhile_eq_nil_iff, trimStart]
  constructor
  · intro h c hc
    rw [← List.takeWhile_append_dropWhile (p := isBlank) (l := text)] at hc
    rcases List.mem_append.1 hc with hc | hc
    · exact List.mem_takeWhile_imp hc
    · exact h c (List.mem_reverse.2 hc)
  · exact fun h c hc => h c ((List.dropWhile_sublist _).mem (List.mem_reverse.1 hc))

/-- Not empty, and without a blank at either end. -/
structure Solid (text : List Char) : Prop where
  head : ∃ c rest, text = c :: rest ∧ isBlank c = false
  last : ∃ start c, text = start ++ [c] ∧ isBlank c = false

namespace Solid

variable {text : List Char}

theorem ne_nil (h : Solid text) : text ≠ [] := by
  obtain ⟨c, rest, rfl, -⟩ := h.head
  exact List.cons_ne_nil c rest

theorem trimEnd_eq (h : Solid text) : trimEnd text = text := by
  obtain ⟨start, c, rfl, hc⟩ := h.last
  exact trimEnd_eq_self hc

theorem trim_eq (h : Solid text) : trim text = text := by
  have hs : trimStart text = text := by
    obtain ⟨c, rest, rfl, hc⟩ := h.head
    exact trimStart_eq_self hc
  rw [trim, hs, h.trimEnd_eq]

theorem trim_append (h : Solid text) {gap : List Char} (hg : ∀ c ∈ gap, isBlank c = true) :
    trim (gap ++ text) = text := by
  rw [trim, trimStart_append hg]
  exact h.trim_eq

theorem of_forall (hne : text ≠ []) (h : ∀ c ∈ text, isBlank c = false) : Solid text where
  head := by
    obtain ⟨c, rest, rfl⟩ := List.exists_cons_of_ne_nil hne
    exact ⟨c, rest, rfl, h c (by simp)⟩
  last := ⟨_, _, (List.dropLast_concat_getLast hne).symm, h _ (List.getLast_mem hne)⟩

theorem enclosed {o c : Char} {body : List Char} (ho : isBlank o = false)
    (hc : isBlank c = false) : Solid (o :: body ++ [c]) :=
  ⟨⟨o, body ++ [c], rfl, ho⟩, ⟨o :: body, c, rfl, hc⟩⟩

theorem append_last {start : List Char} (h : Solid text) {c : Char} (hc : isBlank c = false) :
    Solid (text ++ start ++ [c]) := by
  obtain ⟨d, rest, rfl, hd⟩ := h.head
  exact ⟨⟨d, rest ++ start ++ [c], rfl, hd⟩, ⟨d :: rest ++ start, c, rfl, hc⟩⟩

theorem append {a b : List Char} (ha : Solid a) (hb : Solid b) (gap : List Char) :
    Solid (a ++ gap ++ b) where
  head := by
    obtain ⟨c, rest, rfl, hc⟩ := ha.head
    exact ⟨c, rest ++ gap ++ b, by simp, hc⟩
  last := by
    obtain ⟨start, c, rfl, hc⟩ := hb.last
    exact ⟨a ++ gap ++ start, c, by simp, hc⟩

theorem intercalate (gap : List Char) {pieces : List (List Char)} (hne : pieces ≠ [])
    (h : ∀ p ∈ pieces, Solid p) : Solid (gap.intercalate pieces) := by
  induction pieces with
  | nil => contradiction
  | cons piece rest ih =>
    obtain ⟨hpiece, hrest⟩ := List.forall_mem_cons.1 h
    cases rest with
    | nil => simpa using hpiece
    | cons next rest =>
      rw [List.intercalate_cons_cons]
      exact hpiece.append (ih (by simp) hrest) gap

end Solid

/-- Trimming takes the blanks in front of a text and behind it, and nothing else. -/
theorem exists_blanks (text : List Char) : ∃ before behind,
    (∀ c ∈ before, isBlank c = true) ∧ (∀ c ∈ behind, isBlank c = true) ∧
      text = before ++ trim text ++ behind := by
  refine ⟨text.takeWhile isBlank, ((trimStart text).reverse.takeWhile isBlank).reverse,
    fun c hc => List.mem_takeWhile_imp hc, fun c hc => List.mem_takeWhile_imp (List.mem_reverse.1 hc),
    ?_⟩
  have hend : trim text ++ ((trimStart text).reverse.takeWhile isBlank).reverse =
      trimStart text := by
    rw [trim, trimEnd, ← List.reverse_append, List.takeWhile_append_dropWhile, List.reverse_reverse]
  rw [List.append_assoc, hend, trimStart, List.takeWhile_append_dropWhile]

theorem solid_trim {text : List Char} (h : trim text ≠ []) : Solid (trim text) where
  head := by
    cases hstart : trimStart text with
    | nil => simp [trim, hstart, trimEnd] at h
    | cons c rest =>
      have hc : isBlank c = false := by
        have := List.head?_dropWhile_not isBlank text
        rw [← trimStart, hstart] at this
        exact this
      exact ⟨c, trimEnd rest, by rw [trim, hstart, trimEnd_cons hc], hc⟩
  last := by
    cases hlast : (trimStart text).reverse.dropWhile isBlank with
    | nil => simp [trim, hlast, trimEnd] at h
    | cons c rest =>
      have hc : isBlank c = false := by
        have := List.head?_dropWhile_not isBlank (trimStart text).reverse
        rw [hlast] at this
        exact this
      exact ⟨rest.reverse, c, by rw [trim, trimEnd, hlast, List.reverse_cons], hc⟩

theorem trim_trim (text : List Char) : trim (trim text) = trim text := by
  by_cases h : trim text = []
  · rw [h, trim_nil]
  · exact (solid_trim h).trim_eq

theorem Solid.trimEnd_eq_trim {name rest : List Char} (h : Solid (name ++ rest)) :
    trimEnd name = trim name := by
  cases name with
  | nil => rfl
  | cons c name =>
    obtain ⟨d, tail, heq, hd⟩ := h.head
    obtain ⟨rfl, -⟩ := List.cons.inj heq
    rw [trimEnd_cons hd, trim_cons hd]

theorem Solid.eq_nil_of_blank {start rest : List Char} (h : Solid (start ++ rest))
    (hblank : ∀ c ∈ rest, isBlank c = true) : rest = [] := by
  rcases List.eq_nil_or_concat rest with hnil | ⟨front, c, rfl⟩
  · exact hnil
  · obtain ⟨before, d, heq, hd⟩ := h.last
    rw [List.concat_eq_append, ← List.append_assoc] at heq
    have hc : isBlank d = true := by
      rw [← (List.append_inj' heq rfl).2 |> List.singleton_inj.1]
      exact hblank c (by simp)
    rw [hd] at hc
    contradiction

theorem bne_of_not_mem {x : Char} {plain : List Char} (h : x ∉ plain) :
    ∀ c ∈ plain, (c != x) = true := by
  intro c hc
  rw [bne_iff_ne]
  rintro rfl
  exact h hc

theorem span_of_not_mem {x : Char} {plain : List Char} (h : x ∉ plain) (behind : List Char) :
    (plain ++ x :: behind).takeWhile (· != x) = plain ∧
      (plain ++ x :: behind).dropWhile (· != x) = x :: behind := by
  have hne := bne_of_not_mem h
  rw [List.takeWhile_append_of_pos hne, List.dropWhile_append_of_pos hne]
  simp

/-- There is one place where a character first stands in a text. -/
theorem first_unique {x : Char} {a a' b b' : List Char} (h : x ∉ a) (h' : x ∉ a')
    (heq : a ++ x :: b = a' ++ x :: b') : a = a' ∧ b = b' := by
  obtain ⟨htake, hdrop⟩ := span_of_not_mem h b
  obtain ⟨htake', hdrop'⟩ := span_of_not_mem h' b'
  rw [heq] at htake hdrop
  exact ⟨htake.symm.trans htake', (List.cons.inj (hdrop.symm.trans hdrop')).2⟩

end Text

open Text

def inFront {α : Type} (text : List Char) (parts : List Char × α) : List Char × α :=
  (text ++ parts.1, parts.2)

section inFront

variable {α : Type} (a b : List Char)

@[simp] theorem inFront_nil (parts : List Char × α) : inFront [] parts = parts := rfl

@[simp] theorem inFront_mk (parts : List Char × α) :
    inFront a parts = (a ++ parts.1, parts.2) := rfl

theorem inFront_append (parts : List Char × α) :
    inFront (a ++ b) parts = inFront a (inFront b parts) := by
  simp [List.append_assoc]

theorem map_inFront_nil (found : Option (List Char × α)) : found.map (inFront []) = found := by
  cases found <;> rfl

theorem map_inFront_append (found : Option (List Char × α)) :
    found.map (inFront (a ++ b)) = (found.map (inFront b)).map (inFront a) := by
  cases found <;> simp

end inFront

def brackets : List (Char × Char) :=
  [('(', ')'), ('[', ']'), ('\x7b', '\x7d')]

/-- A character that no scanner heeds. -/
def isInert (c : Char) : Bool :=
  c ≠ '"' && c ≠ ',' && brackets.all fun pair => c ≠ pair.1 && c ≠ pair.2

theorem blank_behind_comma : ∀ c ∈ [' '], isBlank c = true :=
  List.forall_mem_singleton.2 (by decide)

/-- The characters that are not inert. -/
def marks : List Char :=
  ['"', ',', '(', ')', '[', ']', '\x7b', '\x7d']

theorem isInert_of_not_mem {c : Char} (h : c ∉ marks) : isInert c = true := by
  simp only [marks, List.mem_cons, List.not_mem_nil, or_false, not_or] at h
  simp [isInert, brackets, h]

theorem isInert_of_code {c : Char} (h : 45 ≤ c.toNat ∧ c.toNat ≤ 90 ∨ c.toNat = 95 ∨
    97 ≤ c.toNat ∧ c.toNat ≤ 122) : isInert c = true := by
  refine isInert_of_not_mem fun hmem => ?_
  have hcode : marks.all (fun d =>
      decide (d.toNat < 45 ∨ 90 < d.toNat ∧ d.toNat < 95 ∨ 122 < d.toNat)) = true := by decide
  have := of_decide_eq_true (List.all_eq_true.1 hcode c hmem)
  omega

theorem isInert_of_isBlank {c : Char} (h : isBlank c = true) : isInert c = true := by
  refine isInert_of_not_mem fun hmem => ?_
  have hmarks : marks.all (!isBlank ·) = true := by decide
  have := List.all_eq_true.1 hmarks c hmem
  simp [h] at this

/-- Text that the scanners pass over when they come to it outside every literal and at least
`least` brackets deep. -/
structure Neutral (least : Nat) (text : List Char) : Prop where
  cut : ∀ depth rest, least ≤ depth →
    cutAtCommas depth .outside (text ++ rest) = inFront text (cutAtCommas depth .outside rest)
  close : ∀ o c, (o, c) ∈ brackets → ∀ depth rest,
    closing? o c depth .outside (text ++ rest) =
      (closing? o c depth .outside rest).map (inFront text)

namespace Neutral

variable {least : Nat} {text : List Char}

theorem nil : Neutral least [] where
  cut _ _ _ := rfl
  close _ _ _ _ _ := (map_inFront_nil _).symm

theorem mono {more : Nat} (h : Neutral least text) (hle : least ≤ more) : Neutral more text where
  cut depth rest hd := h.cut depth rest (Nat.le_trans hle hd)
  close := h.close

theorem append {a b : List Char} (ha : Neutral least a) (hb : Neutral least b) :
    Neutral least (a ++ b) where
  cut depth rest hd := by
    rw [List.append_assoc, ha.cut depth _ hd, hb.cut depth rest hd, inFront_append]
  close o c hp depth rest := by
    rw [List.append_assoc, ha.close o c hp, hb.close o c hp, map_inFront_append]

theorem inert {x : Char} (h : isInert x = true) : Neutral 0 [x] where
  cut depth rest _ := by
    simp_all [isInert, brackets, cutAtCommas, Quote.next]
    rfl
  close o c hp depth rest := by
    have hx : x ≠ o ∧ x ≠ c ∧ x ≠ '"' := by
      simp only [isInert, Bool.and_eq_true, List.all_eq_true, decide_eq_true_eq] at h
      have := h.2 (o, c) hp
      exact ⟨this.1, this.2, h.1.1⟩
    simp [closing?, Quote.next, hx]
    rfl

theorem of_inert (h : ∀ c ∈ text, isInert c = true) : Neutral 0 text := by
  induction text with
  | nil => exact nil
  | cons c rest ih =>
    exact (inert (h c (by simp))).append (ih fun d hd => h d (by simp [hd]))

/-- Between brackets a comma has no effect. -/
theorem comma : Neutral 1 [','] where
  cut depth rest hd := by
    have : depth ≠ 0 := by omega
    simp [cutAtCommas, Quote.next, this]
    rfl
  close o c hp depth rest := by
    simp only [brackets, List.mem_cons, Prod.mk.injEq, List.not_mem_nil, or_false] at hp
    rcases hp with ⟨rfl, rfl⟩ | ⟨rfl, rfl⟩ | ⟨rfl, rfl⟩ <;> simp [closing?, Quote.next] <;> rfl

end Neutral

section brackets

variable {o c : Char} (hp : (o, c) ∈ brackets) (depth : Nat) (rest : List Char)
include hp

theorem cutAtCommas_open : cutAtCommas depth .outside (o :: rest) =
    inFront [o] (cutAtCommas (depth + 1) .outside rest) := by
  simp only [brackets, List.mem_cons, Prod.mk.injEq, List.not_mem_nil, or_false] at hp
  rcases hp with ⟨rfl, rfl⟩ | ⟨rfl, rfl⟩ | ⟨rfl, rfl⟩ <;> simp [cutAtCommas, Quote.next] <;> rfl

theorem cutAtCommas_close : cutAtCommas (depth + 1) .outside (c :: rest) =
    inFront [c] (cutAtCommas depth .outside rest) := by
  simp only [brackets, List.mem_cons, Prod.mk.injEq, List.not_mem_nil, or_false] at hp
  rcases hp with ⟨rfl, rfl⟩ | ⟨rfl, rfl⟩ | ⟨rfl, rfl⟩ <;> simp [cutAtCommas, Quote.next] <;> rfl

theorem closing?_open : closing? o c depth .outside (o :: rest) =
    (closing? o c (depth + 1) .outside rest).map (inFront [o]) := by
  simp only [brackets, List.mem_cons, Prod.mk.injEq, List.not_mem_nil, or_false] at hp
  rcases hp with ⟨rfl, rfl⟩ | ⟨rfl, rfl⟩ | ⟨rfl, rfl⟩ <;> simp [closing?, Quote.next] <;> rfl

theorem closing?_close : closing? o c (depth + 1) .outside (c :: rest) =
    (closing? o c depth .outside rest).map (inFront [c]) := by
  simp only [brackets, List.mem_cons, Prod.mk.injEq, List.not_mem_nil, or_false] at hp
  rcases hp with ⟨rfl, rfl⟩ | ⟨rfl, rfl⟩ | ⟨rfl, rfl⟩ <;> simp [closing?, Quote.next] <;> rfl

theorem closing?_last : closing? o c 0 .outside (c :: rest) = some ([], rest) := by
  simp only [brackets, List.mem_cons, Prod.mk.injEq, List.not_mem_nil, or_false] at hp
  rcases hp with ⟨rfl, rfl⟩ | ⟨rfl, rfl⟩ | ⟨rfl, rfl⟩ <;> simp [closing?]

/-- Brackets of one kind are ordinary characters in the search for another. -/
theorem closing?_other {a b x : Char} (ha : (a, b) ∈ brackets) (hne : (a, b) ≠ (o, c))
    (hx : x = a ∨ x = b) : closing? o c depth .outside (x :: rest) =
      (closing? o c depth .outside rest).map (inFront [x]) := by
  simp only [brackets, List.mem_cons, Prod.mk.injEq, List.not_mem_nil, or_false] at hp ha
  rcases hp with ⟨rfl, rfl⟩ | ⟨rfl, rfl⟩ | ⟨rfl, rfl⟩ <;>
    rcases ha with ⟨rfl, rfl⟩ | ⟨rfl, rfl⟩ | ⟨rfl, rfl⟩ <;>
    rcases hx with rfl | rfl <;> first | contradiction | (simp [closing?, Quote.next]; rfl)

end brackets

namespace Neutral

variable {text : List Char} {o c : Char}

theorem enclosed (hp : (o, c) ∈ brackets) (h : Neutral 1 text) :
    Neutral 0 (o :: text ++ [c]) where
  cut depth rest _ := by
    calc cutAtCommas depth .outside (o :: text ++ [c] ++ rest)
      _ = cutAtCommas depth .outside (o :: (text ++ c :: rest)) := by simp
      _ = inFront [o] (inFront text (inFront [c] (cutAtCommas depth .outside rest))) := by
        rw [cutAtCommas_open hp, h.cut (depth + 1) _ (by omega), cutAtCommas_close hp]
      _ = inFront (o :: text ++ [c]) (cutAtCommas depth .outside rest) := by simp
  close a b ha depth rest := by
    have hsplit : o :: text ++ [c] ++ rest = o :: (text ++ c :: rest) := by simp
    have hwhole : o :: text ++ [c] = [o] ++ (text ++ [c]) := by simp
    rw [hsplit, hwhole, map_inFront_append, map_inFront_append]
    by_cases he : (o, c) = (a, b)
    · obtain ⟨rfl, rfl⟩ := Prod.mk.inj he
      rw [closing?_open ha, h.close o c ha, closing?_close ha]
    · rw [closing?_other ha _ _ hp he (.inl rfl), h.close a b ha,
        closing?_other ha _ _ hp he (.inr rfl)]

/-- The search for a closing bracket goes past a neutral text to the one behind it. -/
theorem closing?_eq (hp : (o, c) ∈ brackets) {least : Nat} (h : Neutral least text)
    (rest : List Char) : closing? o c 0 .outside (text ++ c :: rest) = some (text, rest) := by
  rw [h.close o c hp, closing?_last hp]
  simp

/-- Neutral pieces between commas, each comma with the same inert text behind it. -/
theorem intercalate {gap : List Char} (hg : ∀ c ∈ gap, isInert c = true)
    {pieces : List (List Char)} (h : ∀ piece ∈ pieces, Neutral 0 piece) :
    Neutral 1 ((',' :: gap).intercalate pieces) := by
  have hsep : Neutral 1 (',' :: gap) := comma.append ((of_inert hg).mono (Nat.zero_le 1))
  induction pieces with
  | nil => exact nil
  | cons piece rest ih =>
    have hpiece : Neutral 1 piece := (h piece (by simp)).mono (Nat.zero_le 1)
    cases rest with
    | nil => simpa using hpiece
    | cons next rest =>
      rw [List.intercalate_cons_cons]
      exact (hpiece.append hsep).append (ih fun p hp => h p (by simp [hp]))

end Neutral

theorem cutAtCommas_intercalate {piece : List Char} {rest : List (List Char)}
    (h : ∀ p ∈ piece :: rest, Neutral 0 p) :
    cutAtCommas 0 .outside ([','].intercalate (piece :: rest)) = (piece, rest) := by
  induction rest generalizing piece with
  | nil =>
    have := (h piece (by simp)).cut 0 [] (Nat.le_refl 0)
    simpa [cutAtCommas] using this
  | cons next rest ih =>
    have hcomma : ∀ after, cutAtCommas 0 .outside (',' :: after) =
        ([], (cutAtCommas 0 .outside after).1 :: (cutAtCommas 0 .outside after).2) := by
      simp [cutAtCommas, Quote.next]
    have hrest := ih fun p hp => h p (List.mem_cons_of_mem piece hp)
    rw [List.intercalate_cons_cons, List.append_assoc, (h piece (by simp)).cut 0 _ (Nat.le_refl 0),
      List.singleton_append, hcomma, hrest]
    simp

/-- Neutral pieces between commas are cut apart, and the blanks around them are dropped. -/
theorem splitArgs_of_neutral {pieces : List (List Char)} (h : ∀ p ∈ pieces, Neutral 0 p)
    (hne : ∀ p ∈ pieces, trim p ≠ []) : splitArgs ([','].intercalate pieces) = pieces.map trim := by
  cases pieces with
  | nil => rfl
  | cons piece rest =>
    have hbody : trim ([','].intercalate (piece :: rest)) ≠ [] := by
      intro hblank
      have hpiece := hne piece (by simp)
      rw [ne_eq, trim_eq_nil_iff] at hpiece
      rw [trim_eq_nil_iff] at hblank
      refine hpiece fun c hc => hblank c ?_
      cases rest with
      | nil => simpa using hc
      | cons next rest =>
        rw [List.intercalate_cons_cons, List.append_assoc]
        exact List.mem_append_left _ hc
    rw [splitArgs, if_neg (by simpa using hbody), cutAtCommas_intercalate h]

theorem toList_joined (texts : List String) :
    (", ".intercalate texts).toList = [',', ' '].intercalate (texts.map String.toList) :=
  String.toList_intercalate

theorem toList_bracketed (body : String) :
    ("[" ++ body ++ "]").toList = '[' :: body.toList ++ [']'] := by
  simp

/-- A piece of a list of arguments. -/
structure Piece (text : List Char) : Prop where
  solid : Solid text
  neutral : Neutral 0 text

theorem intercalate_gap (gap piece : List Char) (rest : List (List Char)) :
    (',' :: gap).intercalate (piece :: rest) =
      [','].intercalate (piece :: rest.map (gap ++ ·)) := by
  induction rest generalizing piece with
  | nil => simp [List.intercalate]
  | cons next rest ih =>
    rw [List.intercalate_cons_cons, ih, List.map_cons, List.intercalate_cons_cons]
    cases rest <;> simp [List.intercalate]

/-- Cutting a list of pieces at its commas gives the pieces back, whatever blanks stand behind
the commas. -/
theorem splitArgs_intercalate {gap : List Char} (hg : ∀ c ∈ gap, isBlank c = true)
    {pieces : List (List Char)} (h : ∀ p ∈ pieces, Piece p) :
    splitArgs ((',' :: gap).intercalate pieces) = pieces := by
  cases pieces with
  | nil => rfl
  | cons piece rest =>
    obtain ⟨hpiece, hrest⟩ := List.forall_mem_cons.1 h
    have hgap : Neutral 0 gap := .of_inert fun c hc => isInert_of_isBlank (hg c hc)
    have htrim : ∀ p ∈ rest, trim (gap ++ p) = p := fun p hp =>
      (hrest p hp).solid.trim_append hg
    rw [intercalate_gap, splitArgs_of_neutral]
    · rw [List.map_cons, List.map_map, hpiece.solid.trim_eq]
      exact congrArg (piece :: ·) ((List.map_congr_left htrim).trans (List.map_id rest))
    · exact List.forall_mem_cons.2 ⟨hpiece.neutral, List.forall_mem_map.2 fun p hp =>
        hgap.append (hrest p hp).neutral⟩
    · refine List.forall_mem_cons.2 ⟨?_, List.forall_mem_map.2 fun p hp => ?_⟩
      · rw [hpiece.solid.trim_eq]
        exact hpiece.solid.ne_nil
      · rw [htrim p hp]
        exact (hrest p hp).solid.ne_nil

end ToolDialogue
