import ToolDialogue.Proofs.Numerals

/-! Arguments in the place of integers. Text of no other shape is taken if it is a numeral in range,
alike with quotes and without; a bare `-0` is told apart, as a float. -/
namespace ToolDialogue

open Json (Number Value)
open Text
open Decimal (Numeral FitsInt64 readInt64)

/-- A text in which no other shape is seen than a number or bare text. -/
structure Shapeless (text : List Char) : Prop where
  no_call : Argument.call? (trim text) = none
  unquoted : ∀ q body, q = '"' ∨ q = '\x27' → trim text ≠ q :: body ++ [q]
  no_boolean : readBoolean? (trim text) = none
  unbracketed : ∀ body, trim text ≠ '[' :: body ++ [']']

namespace Shapeless

variable {text : List Char}

theorem unquote?_eq_none (h : Shapeless text) : unquote? (trim text) = none := by
  cases hcontent : unquote? (trim text) with
  | none => rfl
  | some content =>
    obtain ⟨q, body, hq, htext, -⟩ := unquote?_eq_some_iff.1 hcontent
    exact absurd htext (h.unquoted q body hq)

theorem unbracket?_eq_none (h : Shapeless text) : unbracket? (trim text) = none := by
  cases hinner : unbracket? (trim text) with
  | none => rfl
  | some inner => exact absurd (unbracket?_eq_some_iff.1 hinner) (h.unbracketed inner)

theorem read_eq_plain (h : Shapeless text) (room : Nat) :
    Argument.read true room text = Argument.plain (trim text) :=
  Argument.read_of_plain h.no_call h.unquote?_eq_none h.no_boolean h.unbracket?_eq_none

end Shapeless

theorem shapeless_iff {text : List Char} : Shapeless text ↔
    Argument.call? (trim text) = none ∧ unquote? (trim text) = none ∧
      readBoolean? (trim text) = none ∧ unbracket? (trim text) = none := by
  constructor
  · intro h
    exact ⟨h.no_call, h.unquote?_eq_none, h.no_boolean, h.unbracket?_eq_none⟩
  · rintro ⟨hcall, hquote, hboolean, hbracket⟩
    refine ⟨hcall, fun q body hq htext => ?_, hboolean, fun body htext => ?_⟩
    · rw [unquote?_eq_some_iff.2 ⟨q, body, hq, htext, rfl⟩] at hquote
      contradiction
    · rw [unbracket?_eq_some_iff.2 htext] at hbracket
      contradiction

instance (text : List Char) : Decidable (Shapeless text) :=
  decidable_of_iff' _ shapeless_iff

namespace Argument

theorem toInteger_text_iff {arg : Argument} {s : String} (harg : arg = quoted s ∨ arg = bare s)
    {v : Value} : arg.toInteger = .ok v ↔
      ∃ n : Int64, v = .ofInt64 n ∧ Decimal.Numeral (trim s.toList) n.toInt := by
  simp only [← Decimal.readInt64_eq_ok_iff]
  cases hread : readInt64 (trim s.toList) with
  | error fault =>
    have hfault : arg.toInteger = .error (.integerText fault) := by
      rcases harg with rfl | rfl <;> rw [toInteger, hread]
    simp [hfault]
  | ok n =>
    have hvalue : arg.toInteger = .ok (.ofInt64 n) := by
      rcases harg with rfl | rfl <;> rw [toInteger, hread]
    simp [hvalue, eq_comm]

theorem toInteger_number_iff {k : Number} {v : Value} : (number k).toInteger = .ok v ↔
    ∃ n, k.toInt64? = some n ∧ v = .ofInt64 n := by
  rw [toInteger]
  cases hk : k.toInt64? with
  | none => simp
  | some n => simp [eq_comm]

theorem toInteger_minus_zero : (plain "-0".toList).toInteger = .error .notInt64 := rfl

theorem toInteger_plain_iff {text : List Char} (htrim : trim text = text) {v : Value} :
    (plain text).toInteger = .ok v ↔ text ≠ "-0".toList ∧
      ∃ n : Int64, v = .ofInt64 n ∧ Decimal.Numeral text n.toInt := by
  by_cases hzero : text = "-0".toList
  · rw [hzero, toInteger_minus_zero]
    simp
  cases hnumber : Number.ofText? text with
  | none =>
    have hbare : plain text = bare (String.ofList text) := by rw [plain, hnumber]
    rw [hbare, toInteger_text_iff (.inr rfl), String.toList_ofList, htrim]
    exact (and_iff_right hzero).symm
  | some k =>
    have hplain : plain text = number k := by rw [plain, hnumber]
    rw [hplain, toInteger_number_iff]
    constructor
    · rintro ⟨n, hn, rfl⟩
      obtain ⟨fits, rfl⟩ := Number.toInt64?_eq_some_iff.1 hn
      exact ⟨hzero, n, rfl, Number.numeral_of_ofText? hnumber⟩
    · rintro ⟨-, n, rfl, hn⟩
      rcases Number.ofText?_numeral hn (Decimal.fitsInt64_toInt n) hzero with hnone | ⟨fits, hsome⟩
      · rw [hnumber] at hnone
        contradiction
      · rw [hnumber] at hsome
        cases hsome
        exact ⟨n, Number.toInt64?_eq_some_iff.2 ⟨fits, rfl⟩, rfl⟩

end Argument

theorem convert_integer_iff {param : String} {arg : Argument} {v : Value} :
    convert param .integer arg = .ok v ↔ arg.toInteger = .ok v := by
  by_cases hcall : ∃ c, arg = .call c
  · obtain ⟨c, rfl⟩ := hcall
    constructor <;> intro h
    · exact absurd rfl (ne_call_of_convert h c)
    · contradiction
  · rw [convert_scalar rfl fun c h => hcall ⟨c, h⟩]
    constructor
    · exact eq_ok_of_mapError
    · intro h
      rw [h]
      rfl

variable {text : String} {v : Value}

theorem convert_bare_integer_iff (param : String) (h : Shapeless text.toList) :
    convert param .integer (.ofText text) = .ok v ↔ trim text.toList ≠ "-0".toList ∧
      ∃ n : Int64, v = .ofInt64 n ∧ Numeral (trim text.toList) n.toInt := by
  have hread : Argument.ofText text = Argument.plain (trim text.toList) :=
    h.read_eq_plain groupLimit
  rw [convert_integer_iff, hread, Argument.toInteger_plain_iff (trim_trim _)]

theorem convert_quoted_integer_iff (param text : String) :
    convert param .integer (.ofText (String.ofList (inQuotes '"' text.toList))) = .ok v ↔
      ∃ n : Int64, v = .ofInt64 n ∧ Numeral (trim text.toList) n.toInt := by
  have hread : Argument.ofText (String.ofList (inQuotes '"' text.toList)) = .quoted text := by
    rw [Argument.ofText, String.toList_ofList, Argument.read_inQuotes (.inl rfl),
      String.ofList_toList]
  rw [convert_integer_iff, hread, Argument.toInteger_text_iff (.inl rfl)]

/-- In the place of an integer, text of no other shape is taken exactly if, trimmed, it reads as a
signed 64-bit integer, and in double quotes it converts alike. What reads as one is the numeral of
that integer, and a numeral out of range does not read. The exception is a bare `-0`: it is
refused. -/
theorem integer_spellings (param : String) (h : Shapeless text.toList) :
    (∀ v, convert param .integer (.ofText text) = .ok v ↔ trim text.toList ≠ "-0".toList ∧
      ∃ n, readInt64 (trim text.toList) = .ok n ∧ v = .ofInt64 n) ∧
    (∀ v, convert param .integer (.ofText (String.ofList (inQuotes '"' text.toList))) = .ok v ↔
      ∃ n, readInt64 (trim text.toList) = .ok n ∧ v = .ofInt64 n) ∧
    (∀ n, readInt64 (trim text.toList) = .ok n ↔ Numeral (trim text.toList) n.toInt) ∧
    ∀ k, Numeral (trim text.toList) k → ¬ FitsInt64 k →
      ∃ fault, readInt64 (trim text.toList) = .error fault := by
  have hread (n : Int64) : readInt64 (trim text.toList) = .ok n ↔
      Numeral (trim text.toList) n.toInt := Decimal.readInt64_eq_ok_iff
  refine ⟨fun v => ?_, fun v => ?_, hread, fun k hk hout => ?_⟩
  · simp only [convert_bare_integer_iff param h, hread, and_comm (a := v = _)]
  · simp only [convert_quoted_integer_iff, hread, and_comm (a := v = _)]
  · cases hn : readInt64 (trim text.toList) with
    | error fault => exact ⟨fault, rfl⟩
    | ok n =>
      have hvalue : n.toInt = k := ((hread n).1 hn).unique hk
      exact absurd (hvalue ▸ Decimal.fitsInt64_toInt n) hout

/-- A plus and needless zeros are no matter. -/
theorem integer_spellings_plus_seven :
    Shapeless " +007".toList ∧ convert "n" .integer (.ofText " +007") = .ok (.ofInt64 7) ∧
      convert "n" .integer (.ofText "\" +007\"") = .ok (.ofInt64 7) := by
  have hshapeless : Shapeless " +007".toList := by decide
  obtain ⟨hbare, hquoted, -⟩ := integer_spellings "n" hshapeless
  have hread : readInt64 (trim " +007".toList) = .ok 7 := rfl
  exact ⟨hshapeless, (hbare _).2 ⟨by decide, 7, hread, rfl⟩, (hquoted _).2 ⟨7, hread, rfl⟩⟩

/-- A bare `-0` reads as zero and is refused; in quotes it is zero. -/
theorem minus_zero_refused :
    Shapeless "-0".toList ∧ readInt64 (trim "-0".toList) = .ok 0 ∧
      (∀ v, convert "n" .integer (.ofText "-0") ≠ .ok v) ∧
      convert "n" .integer (.ofText "\"-0\"") = .ok (.ofInt64 0) := by
  have hshapeless : Shapeless "-0".toList := by decide
  refine ⟨hshapeless, rfl, fun v hv => ?_, ?_⟩
  · obtain ⟨hzero, -⟩ := (convert_bare_integer_iff "n" hshapeless).1 hv
    exact hzero rfl
  · apply (convert_quoted_integer_iff "n" "-0").2
    exact ⟨0, rfl, Decimal.readInt64_eq_ok_iff.1 rfl⟩

end ToolDialogue
