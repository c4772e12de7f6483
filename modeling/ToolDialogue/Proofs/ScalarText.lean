import ToolDialogue.Expr.Argument

/-! Characters that stand in the text of no number and of no truth value. What reads a number leaves
them in the rest of the text. -/
namespace ToolDialogue

open Decimal (digit? leadingDigits sign readExponent readPointed readFloat int64Digits readInt64)
open Text

/-- Neither a digit nor a letter or sign of a number or a truth value. -/
def isForeign (c : Char) : Bool :=
  (digit? c).isNone && !"+-.infinitynantruefalse".toList.contains c.toLower

section foreign

variable {x : Char} (hx : isForeign x = true) {text rest : List Char}
include hx

theorem digit?_foreign : digit? x = none := by
  simp only [isForeign, Bool.and_eq_true, Option.isNone_iff_eq_none] at hx
  exact hx.1

theorem ne_foreign {c : Char} (hc : isForeign c = false) : x ≠ c := by
  rintro rfl
  rw [hx] at hc
  contradiction

theorem not_mem_of_sameIgnoringCase {word : String}
    (hword : word.toList.all (fun c => "+-.infinitynantruefalse".toList.contains c.toLower) = true)
    (h : sameIgnoringCase text word.toList = true) : x ∉ text := by
  intro hmem
  have hlower : x.toLower ∈ word.toList.map Char.toLower := by
    rw [sameIgnoringCase, beq_iff_eq] at h
    rw [← h]
    exact List.mem_map_of_mem hmem
  obtain ⟨c, hc, hsame⟩ := List.mem_map.1 hlower
  have hcontains := List.all_eq_true.1 hword c hc
  simp only [isForeign, Bool.and_eq_true, Bool.not_eq_true'] at hx
  rw [hsame, hx.2] at hcontains
  contradiction

theorem not_mem_of_readBoolean? {b : Bool} (h : readBoolean? text = some b) : x ∉ text := by
  have htrue := @not_mem_of_sameIgnoringCase x hx text "true" (by decide)
  have hfalse := @not_mem_of_sameIgnoringCase x hx text "false" (by decide)
  unfold readBoolean? at h
  split at h
  · exact htrue (by assumption)
  · split at h
    · exact hfalse (by assumption)
    · contradiction

theorem mem_sign (h : x ∈ text) : x ∈ (sign text).2 := by
  unfold sign
  split
  · exact (List.mem_cons.1 h).resolve_left (ne_foreign hx (by decide))
  · exact (List.mem_cons.1 h).resolve_left (ne_foreign hx (by decide))
  · exact h

theorem mem_leadingDigits (h : x ∈ text) : x ∈ (leadingDigits text).2 := by
  induction text with
  | nil => exact h
  | cons c text ih =>
    rw [leadingDigits]
    split
    · rename_i d hd
      refine ih ((List.mem_cons.1 h).resolve_left ?_)
      rintro rfl
      rw [digit?_foreign hx] at hd
      contradiction
    · exact h

theorem mem_readExponent {e : Int} (hread : readExponent text = some (e, rest)) (h : x ∈ text) :
    x ∈ rest := by
  have hparts : ∀ c tail, text = c :: tail → c = 'e' ∨ c = 'E' →
      x ∈ (leadingDigits (sign tail).2).2 := by
    rintro c tail rfl hmark
    refine mem_leadingDigits hx (mem_sign hx ((List.mem_cons.1 h).resolve_left ?_))
    rcases hmark with rfl | rfl <;> exact ne_foreign hx (by decide)
  unfold readExponent at hread
  split at hread
  · split at hread
    · rename_i c tail hmark
      have hmem := hparts c tail rfl hmark
      generalize sign tail = signed at hread hmem
      obtain ⟨minus, digits⟩ := signed
      dsimp only at hread hmem
      split at hread
      · contradiction
      · rename_i hdigits
        rw [hdigits] at hmem
        cases hread
        exact hmem
    · cases hread
      exact h
  · cases hread
    exact h

theorem not_mem_of_int64Digits {minus : Bool} {n m : Int}
    (h : int64Digits minus n text = .ok m) : x ∉ text := by
  fun_induction int64Digits minus n text with
  | case1 => simp
  | case2 => contradiction
  | case3 => contradiction
  | case4 => contradiction
  | case5 n c text d hd next _ _ ih =>
    rw [List.mem_cons, not_or]
    refine ⟨?_, ih h⟩
    rintro rfl
    rw [digit?_foreign hx] at hd
    contradiction

theorem not_mem_of_readInt64 {n : Int64} (h : readInt64 text = .ok n) : x ∉ text := by
  intro hmem
  have hsign := mem_sign hx hmem
  unfold readInt64 at h
  split at h
  · contradiction
  · dsimp only at h
    split at h
    · contradiction
    · cases hdigits : int64Digits (sign text).1 0 (sign text).2 with
      | error fault =>
        rw [hdigits] at h
        contradiction
      | ok m => exact not_mem_of_int64Digits hx hdigits hsign

theorem mem_readPointed {n : Nat} {shift : Int} (hread : readPointed text = some (n, shift, rest))
    (h : x ∈ text) : x ∈ rest := by
  have hmem := mem_leadingDigits hx h
  unfold readPointed at hread
  generalize leadingDigits text = parts at hread hmem
  obtain ⟨whole, behind⟩ := parts
  have hfraction : ∀ tail, behind = '.' :: tail → x ∈ (leadingDigits tail).2 := by
    rintro tail rfl
    exact mem_leadingDigits hx ((List.mem_cons.1 hmem).resolve_left (ne_foreign hx (by decide)))
  dsimp only at hread hmem
  split at hread
  · split at hread
    · contradiction
    · cases hread
      exact hfraction _ rfl
  · split at hread
    · contradiction
    · cases hread
      exact hmem

theorem not_mem_of_readFloat {y : Float} (h : readFloat text = some y) : x ∉ text := by
  intro hmem
  have hsign := mem_sign hx hmem
  unfold readFloat at h
  generalize sign text = signed at h hsign
  obtain ⟨minus, body⟩ := signed
  dsimp only at h hsign
  have hword : ∀ word : String, word ∈ ["inf", "infinity", "nan"] →
      sameIgnoringCase body word.toList = false := by
    intro word hword
    have hall : ["inf", "infinity", "nan"].all (fun word => word.toList.all fun c =>
        "+-.infinitynantruefalse".toList.contains c.toLower) = true := by decide
    rw [← Bool.not_eq_true]
    intro hsame
    exact not_mem_of_sameIgnoringCase hx (List.all_eq_true.1 hall word hword) hsame hsign
  obtain ⟨z, hz, -⟩ := Option.map_eq_some_iff.1 h
  simp only [List.any_cons, List.any_nil, hword "inf" (by simp), hword "infinity" (by simp),
    hword "nan" (by simp), Bool.or_false, Bool.false_eq_true, if_false] at hz
  obtain ⟨⟨n, shift, behind⟩, hpointed, hz⟩ := Option.bind_eq_some_iff.1 hz
  obtain ⟨⟨exponent, after⟩, hexponent, hz⟩ := Option.bind_eq_some_iff.1 hz
  have hafter := mem_readExponent hx hexponent (mem_readPointed hx hpointed hsign)
  simp only at hz
  split at hz
  · rename_i hnil
    rw [List.isEmpty_iff.1 hnil] at hafter
    contradiction
  · contradiction

open Json (Number)
open Json.Number (wholeDigits? readUnsigned? read? ofText?)

theorem mem_wholeDigits? {ds : List Nat} (hread : wholeDigits? text = some (ds, rest))
    (h : x ∈ text) : x ∈ rest := by
  have hmem := mem_leadingDigits hx h
  unfold wholeDigits? at hread
  split at hread
  · contradiction
  · contradiction
  · rw [Option.some.inj hread] at hmem
    exact hmem

theorem mem_readUnsigned? {minus : Bool} {n : Number}
    (hread : readUnsigned? minus text = some (n, rest)) (h : x ∈ text) : x ∈ rest := by
  unfold readUnsigned? at hread
  obtain ⟨⟨ds, behind⟩, hwhole, hread⟩ := Option.bind_eq_some_iff.1 hread
  have hmem := mem_wholeDigits? hx hwhole h
  dsimp only at hread
  split at hread
  · rename_i tail
    have htail := mem_leadingDigits hx
      ((List.mem_cons.1 hmem).resolve_left (ne_foreign hx (by decide)))
    split at hread
    · contradiction
    · rename_i hdigits
      rw [hdigits] at htail
      obtain ⟨⟨e, after⟩, hexponent, hread⟩ := Option.bind_eq_some_iff.1 hread
      obtain ⟨_, -, hread⟩ := Option.bind_eq_some_iff.1 hread
      cases hread
      exact mem_readExponent hx hexponent htail
  · obtain ⟨⟨e, after⟩, hexponent, hread⟩ := Option.bind_eq_some_iff.1 hread
    have hafter := mem_readExponent hx hexponent hmem
    dsimp only at hread
    split at hread
    · obtain ⟨_, -, hread⟩ := Option.bind_eq_some_iff.1 hread
      cases hread
      exact hafter
    · obtain ⟨_, -, hread⟩ := Option.bind_eq_some_iff.1 hread
      cases hread
      exact hmem

theorem not_mem_of_ofText? {n : Number} (h : ofText? text = some n) : x ∉ text := by
  have hread : ∀ {n rest}, read? text = some (n, rest) → x ∈ text → x ∈ rest := by
    intro n rest hread hmem
    unfold read? at hread
    split at hread
    · exact mem_readUnsigned? hx hread
        ((List.mem_cons.1 hmem).resolve_left (ne_foreign hx (by decide)))
    · exact mem_readUnsigned? hx hread hmem
  intro hmem
  unfold ofText? at h
  split at h
  · rename_i hnumber
    have := hread hnumber hmem
    contradiction
  · contradiction

end foreign

end ToolDialogue
