import ToolDialogue.Proofs.Scanning

/-! Texts written as quoted literals. No scanner sees anything of a double-quoted literal, whatever
the text in it, and the text is what the literal is read as. -/
namespace ToolDialogue

namespace Text

/-- A character of a literal between quotes `q`; the backslash and the quote are escaped. -/
def escaped (q c : Char) : List Char :=
  if c = '\\' ∨ c = q then ['\\', c] else [c]

def inQuotes (q : Char) (text : List Char) : List Char :=
  q :: text.flatMap (escaped q) ++ [q]

end Text

open Text

section reading

theorem unescape_of_ne {c : Char} (h : c ≠ '\\') (rest : List Char) :
    unescape (c :: rest) = c :: unescape rest := by
  simp [unescape, h]

/-- Only `n` and `t` stand for another character behind a backslash. -/
theorem unescape_backslash {c : Char} (hn : c ≠ 'n') (ht : c ≠ 't') (rest : List Char) :
    unescape ('\\' :: c :: rest) = c :: unescape rest := by
  rw [unescape]
  · exact hn
  · exact ht

variable {q : Char} (hq : q = '"' ∨ q = '\x27')
include hq

theorem unescape_escaped (text : List Char) : unescape (text.flatMap (escaped q)) = text := by
  have hletter : q ≠ 'n' ∧ q ≠ 't' := by rcases hq with rfl | rfl <;> decide
  induction text with
  | nil => rfl
  | cons c rest ih =>
    rw [List.flatMap_cons, escaped]
    split
    · rename_i hc
      have hc : c ≠ 'n' ∧ c ≠ 't' := by
        rcases hc with rfl | rfl
        · decide
        · exact hletter
      rw [List.cons_append, List.singleton_append, unescape_backslash hc.1 hc.2, ih]
    · rename_i hc
      rw [List.singleton_append, unescape_of_ne (not_or.1 hc).1, ih]

end reading

/-- A scanner in state `q` sees no character of the text and is in state `q'` behind it. -/
inductive Unseen : Quote → List Char → Quote → Prop
  | nil (q : Quote) : Unseen q [] q
  | cons {q q' : Quote} {c : Char} {rest : List Char} (hc : q.sees c = false)
      (hrest : Unseen (q.next c) rest q') : Unseen q (c :: rest) q'

namespace Unseen

variable {q q₁ q' : Quote} {a b text : List Char}

theorem append (ha : Unseen q a q₁) (hb : Unseen q₁ b q') : Unseen q (a ++ b) q' := by
  induction ha with
  | nil => exact hb
  | cons hc _ ih => exact .cons hc (ih hb)

theorem cut (h : Unseen q text q') (depth : Nat) (rest : List Char) :
    cutAtCommas depth q (text ++ rest) = inFront text (cutAtCommas depth q' rest) := by
  induction h with
  | nil => rfl
  | cons hc _ ih =>
    rw [List.cons_append, cutAtCommas]
    simp [hc, ih]

theorem close (h : Unseen q text q') (o c : Char) (depth : Nat) (rest : List Char) :
    closing? o c depth q (text ++ rest) = (closing? o c depth q' rest).map (inFront text) := by
  induction h with
  | nil => exact (map_inFront_nil _).symm
  | @cons q q' x text hc _ ih =>
    have hstep : closing? o c depth q (x :: (text ++ rest)) =
        (closing? o c depth (q.next x) (text ++ rest)).map (inFront [x]) := by
      simp [closing?, hc]
      rfl
    rw [List.cons_append, hstep, ih, ← map_inFront_append]
    rfl

theorem neutral (h : Unseen .outside text .outside) : Neutral 0 text where
  cut depth rest _ := h.cut depth rest
  close o c _ depth rest := h.close o c depth rest

end Unseen

theorem unseen_escaped (c : Char) : Unseen .inside (escaped '"' c) .inside := by
  unfold escaped
  split
  · exact .cons rfl (.cons rfl (.nil .inside))
  · rename_i h
    have hstays : Quote.inside.next c = .inside := by
      have := not_or.1 h
      simp [Quote.next, this]
    refine .cons rfl ?_
    rw [hstays]
    exact .nil .inside

theorem unseen_flatMap_escaped (text : List Char) :
    Unseen .inside (text.flatMap (escaped '"')) .inside := by
  induction text with
  | nil => exact .nil _
  | cons c rest ih => exact (unseen_escaped c).append ih

theorem unseen_inQuotes (text : List Char) : Unseen .outside (inQuotes '"' text) .outside := by
  have hlast : Unseen .inside ['"'] .outside := .cons rfl (.nil _)
  exact .cons rfl ((unseen_flatMap_escaped text).append hlast)

theorem piece_inQuotes (text : List Char) : Piece (inQuotes '"' text) where
  solid := .enclosed (by decide) (by decide)
  neutral := (unseen_inQuotes text).neutral

end ToolDialogue
