import ToolDialogue.Proofs.IntegerText
import ToolDialogue.Proofs.Nearest

/-! The decimal text of a float spells a number that rounds to the float, so no two floats have
the same text. -/
namespace ToolDialogue

namespace Decimal

/-- The number that a decimal text without sign spells. -/
def spelled? (text : List Char) : Option ℚ := do
  let (n, shift, rest) ← readPointed text
  let (exponent, rest) ← readExponent rest
  if rest.isEmpty then some (n * 10 ^ (shift + exponent)) else none

theorem foldl_digits (ds : List Nat) (n : Nat) :
    ds.foldl (fun n d => n * 10 + d) n = n * 10 ^ ds.length + ofDigits ds := by
  induction ds generalizing n with
  | nil => simp [ofDigits]
  | cons d ds ih =>
    rw [ofDigits, List.foldl_cons, List.foldl_cons, ih, ih (0 * 10 + d), List.length_cons]
    ring

theorem ofDigits_append (ds es : List Nat) :
    ofDigits (ds ++ es) = ofDigits ds * 10 ^ es.length + ofDigits es := by
  rw [ofDigits, List.foldl_append, foldl_digits, ← ofDigits]

theorem ofDigits_zeros (n : Nat) : ofDigits (List.replicate n 0) = 0 := by
  induction n with
  | zero => rfl
  | succ n ih => rw [List.replicate_succ', ofDigits_append, ih]; rfl

theorem zeros_eq (n : Nat) : zeros n = (List.replicate n 0).map Nat.digitChar := by
  rw [zeros, List.map_replicate]
  rfl

theorem digitsOf_ne_nil (n : Nat) : digitsOf n ≠ [] := by
  unfold digitsOf
  split <;> simp

section reading

variable {ds fs : List Nat} (hds : ∀ d ∈ ds, d < 10) (hne : ds ≠ []) {rest : List Char}
  (hrest : ∀ c ∈ rest.head?, digit? c = none)
include hds hne hrest

theorem readPointed_whole (hpoint : rest.head? ≠ some '.') :
    readPointed (ds.map Nat.digitChar ++ rest) = some (ofDigits ds, 0, rest) := by
  have hempty : ds.isEmpty = false := by simpa using hne
  unfold readPointed
  rw [leadingDigits_map_digitChar hds hrest]
  dsimp only
  split
  · exact absurd rfl hpoint
  · simp [hempty]

theorem readPointed_point (hfs : ∀ d ∈ fs, d < 10) :
    readPointed (ds.map Nat.digitChar ++ '.' :: (fs.map Nat.digitChar ++ rest)) =
      some (ofDigits (ds ++ fs), -(fs.length : ℤ), rest) := by
  have hempty : ds.isEmpty = false := by simpa using hne
  have hpoint : ∀ c ∈ ('.' :: (fs.map Nat.digitChar ++ rest)).head?, digit? c = none := by
    intro c hc
    cases hc
    decide
  unfold readPointed
  rw [leadingDigits_map_digitChar hds hpoint]
  simp [leadingDigits_map_digitChar hfs hrest, hempty]

end reading

theorem leadingDigits_toDigits (n : Nat) :
    leadingDigits (Nat.toDigits 10 n) = (digitsOf n, []) := by
  have hten : ∀ d ∈ digitsOf n, d < 10 := fun d => lt_ten_of_mem_digitsOf
  rw [toDigits_eq_digitsOf, ← leadingDigits_map_digitChar hten (by simp), List.append_nil]

theorem readExponent_signed (e : ℤ) :
    readExponent ('e' :: (if e < 0 then '-' else '+') :: Nat.toDigits 10 e.natAbs) =
      some (e, []) := by
  obtain ⟨d, more, hdigits⟩ := List.exists_cons_of_ne_nil (digitsOf_ne_nil e.natAbs)
  have hvalue : ofDigits (d :: more) = e.natAbs := hdigits ▸ ofDigits_digitsOf e.natAbs
  rw [readExponent, if_pos (.inl rfl)]
  rcases lt_or_ge e 0 with he | he
  · rw [if_pos he]
    simp only [sign, leadingDigits_toDigits, hdigits, hvalue, if_true]
    congr 2
    omega
  · rw [if_neg (by omega)]
    simp only [sign, leadingDigits_toDigits, hdigits, hvalue, Bool.false_eq_true, if_false]
    congr 2
    omega

theorem value_shift (n k : Nat) (e : ℤ) :
    Scaled.value ⟨n * 10 ^ k, e⟩ = Scaled.value ⟨n, e + k⟩ := by
  rw [Scaled.value, Scaled.value, zpow_add₀ (by norm_num), zpow_natCast]
  push_cast
  ring

/-- Digits with a point in them; `ds` stand before it and `fs` behind it. -/
structure Pointed (ds fs : List Nat) (text : List Char) : Prop where
  digits : ∀ d ∈ ds ++ fs, d < 10
  whole : ds ≠ []
  text_eq : text = ds.map Nat.digitChar ++ '.' :: fs.map Nat.digitChar

theorem Pointed.spelled?_eq {ds fs : List Nat} {text : List Char} (h : Pointed ds fs text) :
    spelled? text = some (Scaled.value ⟨ofDigits (ds ++ fs), -fs.length⟩) := by
  obtain ⟨hds, hfs⟩ := List.forall_mem_append.1 h.digits
  have hend : ∀ c ∈ ([] : List Char).head?, digit? c = none := by simp
  have hread := readPointed_point hds h.whole hend hfs
  rw [List.append_nil] at hread
  rw [h.text_eq, spelled?, hread]
  simp [readExponent, Scaled.value]

/-- A positional text has the digits of its decimal around the point, or zeros beside them. -/
theorem exists_pointed {layout : Layout} (hmark : layout.wholeMark = ".0") (n : Nat) (e : ℤ) :
    ∃ ds fs, Pointed ds fs (layout.positionalText ⟨n, e⟩) ∧
      Scaled.value ⟨ofDigits (ds ++ fs), -fs.length⟩ = Scaled.value ⟨n, e⟩ := by
  have hten : ∀ d ∈ digitsOf n, d < 10 := fun d => lt_ten_of_mem_digitsOf
  have hzeros : ∀ k, ∀ d ∈ List.replicate k 0, d < 10 := by simp [List.mem_replicate]
  cases e with
  | ofNat k =>
    refine ⟨digitsOf n ++ List.replicate k 0, [0], ⟨?_, by simp [digitsOf_ne_nil], ?_⟩, ?_⟩
    · simp only [List.forall_mem_append]
      exact ⟨⟨hten, hzeros k⟩, hzeros 1⟩
    · simp only [Layout.positionalText, toDigits_eq_digitsOf, zeros_eq, hmark, List.map_append]
      rfl
    · have hshift : ofDigits (digitsOf n ++ List.replicate k 0 ++ [0]) = n * 10 ^ (k + 1) := by
        rw [List.append_assoc, ← List.replicate_succ', ofDigits_append, ofDigits_digitsOf,
          ofDigits_zeros, List.length_replicate, Nat.add_zero]
      rw [hshift, value_shift]
      congr 2
      simp
  | negSucc k =>
    by_cases hk : k + 1 < (digitsOf n).length
    · refine ⟨(digitsOf n).take ((digitsOf n).length - (k + 1)),
        (digitsOf n).drop ((digitsOf n).length - (k + 1)), ⟨?_, ?_, ?_⟩, ?_⟩
      · rwa [List.take_append_drop]
      · rw [← List.length_pos_iff, List.length_take]
        omega
      · simp only [Layout.positionalText, List.length_map, if_pos hk, toDigits_eq_digitsOf,
          List.map_take, List.map_drop]
      · rw [List.take_append_drop, ofDigits_digitsOf, List.length_drop]
        congr 2
        omega
    · refine ⟨[0], List.replicate (k + 1 - (digitsOf n).length) 0 ++ digitsOf n,
        ⟨?_, by simp, ?_⟩, ?_⟩
      · simp only [List.forall_mem_append]
        exact ⟨hzeros 1, hzeros _, hten⟩
      · simp only [Layout.positionalText, List.length_map, if_neg hk, toDigits_eq_digitsOf,
          zeros_eq, List.map_append]
        rfl
      · have hshift : ofDigits ([0] ++ (List.replicate (k + 1 - (digitsOf n).length) 0 ++
            digitsOf n)) = n := by
          rw [← List.append_assoc, ofDigits_append, ofDigits_append, ofDigits_zeros,
            ofDigits_digitsOf]
          simp [ofDigits]
        rw [hshift, List.length_append, List.length_replicate]
        congr 2
        omega

theorem digit?_exponentMark (rest : List Char) : ∀ c ∈ ('e' :: rest).head?, digit? c = none := by
  intro c hc
  cases hc
  decide

theorem spelled?_scientificText (n : Nat) (e : ℤ) :
    spelled? (scientificText ⟨n, e⟩) = some (Scaled.value ⟨n, e⟩) := by
  obtain ⟨d, ds, hdigits⟩ := List.exists_cons_of_ne_nil (digitsOf_ne_nil n)
  have hten : ∀ d' ∈ d :: ds, d' < 10 := hdigits ▸ fun d' => lt_ten_of_mem_digitsOf
  have hvalue : ofDigits (d :: ds) = n := hdigits ▸ ofDigits_digitsOf n
  have hexponent := readExponent_signed (e + ds.length)
  have htext : scientificText ⟨n, e⟩ = [d].map Nat.digitChar ++
      (if ds.length = 0 then [] else '.' :: ds.map Nat.digitChar) ++
        'e' :: (if e + ds.length < 0 then '-' else '+') ::
          Nat.toDigits 10 (e + ds.length).natAbs := by
    have hlength : e + (((d :: ds).length : ℤ) - 1) = e + ds.length := by simp
    simp only [scientificText, toDigits_eq_digitsOf n, hdigits, List.length_map, hlength]
    simp
  generalize hmark : (if e + ds.length < 0 then '-' else '+') = mark at htext hexponent
  have hd : ∀ d' ∈ [d], d' < 10 := by simp [hten d]
  have hds : ∀ d' ∈ ds, d' < 10 := fun d' hd' => hten d' (List.mem_cons_of_mem d hd')
  by_cases hnil : ds.length = 0
  · rw [if_pos hnil, List.append_nil] at htext
    have hread := readPointed_whole hd (by simp) (digit?_exponentMark
      (mark :: Nat.toDigits 10 (e + ds.length).natAbs)) (by simp)
    have hplain : e + ds.length = e := by omega
    rw [List.length_eq_zero_iff.1 hnil] at hvalue
    rw [htext, spelled?, hread, hvalue, Option.bind_eq_bind, Option.bind_some]
    simp [hplain ▸ hexponent, Scaled.value, hplain]
  · rw [if_neg hnil, List.append_assoc, List.cons_append] at htext
    have hread := readPointed_point hd (by simp) (digit?_exponentMark
      (mark :: Nat.toDigits 10 (e + ds.length).natAbs)) hds
    rw [htext, spelled?, hread, List.singleton_append, hvalue, Option.bind_eq_bind,
      Option.bind_some]
    simp [hexponent, Scaled.value]

theorem spelled?_minus (text : List Char) : spelled? ('-' :: text) = none := rfl

theorem eq_of_toBits {x y : Float} (h : x.toBits = y.toBits) : x = y := by
  obtain ⟨⟨xbits, _⟩⟩ := x
  obtain ⟨⟨ybits, _⟩⟩ := y
  have hbits : xbits = ybits := h
  subst hbits
  rfl

theorem mantissa_ofFloat (x : Float) : (Magnitude.ofFloat x).mantissa =
    x.toBits.toNat % normalUnit +
      if x.toBits.toNat / normalUnit % 2048 = 0 then 0 else normalUnit := by
  unfold Magnitude.ofFloat
  dsimp only
  split
  · rfl
  · exact Nat.add_comm _ _

theorem exponent_ofFloat (x : Float) : (Magnitude.ofFloat x).exponent =
    max 1 (x.toBits.toNat / normalUnit % 2048 : ℕ) - 1075 := by
  unfold Magnitude.ofFloat
  dsimp only
  split
  · simp_all
  · simp only [Int.ofNat_eq_natCast]
    omega

/-- The sign and the magnitude make up all bits of a float. -/
theorem eq_of_magnitude {x y : Float} (hsign : hasMinus x = hasMinus y)
    (h : Magnitude.ofFloat x = Magnitude.ofFloat y) : x = y := by
  refine eq_of_toBits (UInt64.toNat_inj.1 ?_)
  have hx := x.toBits.toNat_lt
  have hy := y.toBits.toNat_lt
  have hhigh : 2048 * normalUnit ≤ x.toBits.toNat ↔ 2048 * normalUnit ≤ y.toBits.toNat :=
    decide_eq_decide.1 hsign
  have hmantissa := congrArg Magnitude.mantissa h
  have hexponent := congrArg Magnitude.exponent h
  rw [mantissa_ofFloat, mantissa_ofFloat] at hmantissa
  rw [exponent_ofFloat, exponent_ofFloat] at hexponent
  have hunit : normalUnit = 2 ^ 52 := rfl
  generalize normalUnit = unit at *
  split at hmantissa <;> split at hmantissa <;> subst hunit <;> omega

section floats

variable {layout : Layout} (hmark : layout.wholeMark = ".0")
include hmark

theorem spelled?_positionalText (x : Scaled) :
    spelled? (layout.positionalText x) = some x.value := by
  obtain ⟨ds, fs, hpointed, hvalue⟩ := exists_pointed hmark x.digits x.exponent
  rw [← hvalue]
  exact hpointed.spelled?_eq

/-- The text of a magnitude spells a number that rounds to it. -/
theorem exists_covered {x : Magnitude} (hx : x.Canonical) :
    ∃ v, spelled? (layout.magnitudeText x) = some v ∧ x.Covers v := by
  unfold Layout.magnitudeText
  split
  · rename_i hm
    have hpointed : Pointed [0] [0] ('0' :: layout.wholeMark.toList) :=
      ⟨by simp, by simp, by rw [hmark]; rfl⟩
    refine ⟨_, hpointed.spelled?_eq, ?_⟩
    have hzero : Scaled.value ⟨ofDigits ([0] ++ [0]), -([0].length : ℤ)⟩ = 0 := by
      simp [Scaled.value, ofDigits]
    rw [hzero]
    exact Magnitude.covers_zero hm hx
  · rename_i hm
    have hcovers := Magnitude.covers_shortest (Nat.pos_of_ne_zero hm) layout.tie
    dsimp only
    split
    · exact ⟨_, spelled?_positionalText hmark _, hcovers⟩
    · exact ⟨_, spelled?_scientificText _ _, hcovers⟩

theorem text_injective : Function.Injective layout.text := by
  intro x y h
  obtain ⟨v, hv, hxv⟩ := exists_covered hmark (Magnitude.canonical_ofFloat x)
  obtain ⟨w, hw, hyw⟩ := exists_covered hmark (Magnitude.canonical_ofFloat y)
  have hsign : hasMinus x = hasMinus y ∧
      layout.magnitudeText (.ofFloat x) = layout.magnitudeText (.ofFloat y) := by
    unfold Layout.text at h
    dsimp only at h
    split at h <;> split at h
    · exact ⟨by simp_all, List.cons_inj_right _ |>.1 h⟩
    · rw [← h, spelled?_minus] at hw
      contradiction
    · rw [h, spelled?_minus] at hv
      contradiction
    · exact ⟨by simp_all, h⟩
  rw [hsign.2, hw] at hv
  cases hv
  exact eq_of_magnitude hsign.1 (Magnitude.eq_of_covers (Magnitude.canonical_ofFloat x)
    (Magnitude.canonical_ofFloat y) hxv hyw)

end floats

end Decimal

namespace Json.Number

open Decimal

/-- The characters of which the text of a number consists. -/
def alphabet : List Char :=
  ['+', '.', 'e'] ++ integerAlphabet

theorem digitChar_mem {d : Nat} (h : d < 10) : d.digitChar ∈ alphabet := by
  have hall : ∀ d < 10, Nat.digitChar d ∈ alphabet := by decide
  exact hall d h

theorem mem_alphabet_of_toDigits {n : Nat} {c : Char} (h : c ∈ Nat.toDigits 10 n) :
    c ∈ alphabet := by
  rw [toDigits_eq_digitsOf] at h
  obtain ⟨d, hd, rfl⟩ := List.mem_map.1 h
  exact digitChar_mem (lt_ten_of_mem_digitsOf hd)

/-- The text of a float consists of these characters and is not that of an integer. -/
structure Floating (text : List Char) : Prop where
  alphabet : ∀ c ∈ text, c ∈ alphabet
  mark : ∃ c ∈ text, c ∉ integerAlphabet

theorem floating_of_pointed {ds fs : List Nat} {text : List Char} (h : Pointed ds fs text) :
    Floating text := by
  obtain ⟨hds, hfs⟩ := List.forall_mem_append.1 h.digits
  rw [h.text_eq]
  refine ⟨List.forall_mem_append.2 ⟨?_, List.forall_mem_cons.2 ⟨by decide, ?_⟩⟩,
    '.', by simp, by decide⟩
  · exact List.forall_mem_map.2 fun d hd => digitChar_mem (hds d hd)
  · exact List.forall_mem_map.2 fun d hd => digitChar_mem (hfs d hd)

theorem floating_scientificText (x : Scaled) : Floating (scientificText x) := by
  have hdigits : ∀ n, ∀ c ∈ Nat.toDigits 10 n, c ∈ alphabet := fun n c => mem_alphabet_of_toDigits
  refine ⟨?_, 'e', by simp [scientificText], by decide⟩
  unfold scientificText
  dsimp only
  refine List.forall_mem_append.2 ⟨List.forall_mem_append.2 ⟨?_, ?_⟩, ?_⟩
  · exact fun c hc => hdigits _ c (List.mem_of_mem_take hc)
  · split
    · simp
    · exact List.forall_mem_cons.2 ⟨by decide, fun c hc => hdigits _ c (List.mem_of_mem_drop hc)⟩
  · refine List.forall_mem_cons.2 ⟨by decide, List.forall_mem_cons.2 ⟨?_, hdigits _⟩⟩
    split <;> decide

theorem floating_text (x : Float) : Floating (layout.text x) := by
  have hunsigned : Floating (layout.magnitudeText (.ofFloat x)) := by
    unfold Layout.magnitudeText
    split
    · have hzero : Pointed [0] [0] ['0', '.', '0'] := ⟨by simp, by simp, rfl⟩
      exact floating_of_pointed hzero
    · dsimp only
      split
      · obtain ⟨ds, fs, h, -⟩ := exists_pointed (show layout.wholeMark = ".0" from rfl) _ _
        exact floating_of_pointed h
      · exact floating_scientificText _
  unfold Layout.text
  dsimp only
  split
  · obtain ⟨c, hc, hmark⟩ := hunsigned.mark
    exact ⟨List.forall_mem_cons.2 ⟨by decide, hunsigned.alphabet⟩, c,
      List.mem_cons_of_mem _ hc, hmark⟩
  · exact hunsigned

theorem mem_alphabet (n : Number) : ∀ c ∈ n.chars, c ∈ alphabet := by
  cases n with
  | integer n fits => exact fun c hc => List.mem_append_right _ (mem_integerAlphabet hc)
  | float x finite => exact (floating_text x).alphabet

theorem chars_ne_nil (n : Number) : n.chars ≠ [] := by
  cases n with
  | integer n fits => exact intChars_ne_nil n
  | float x finite =>
    obtain ⟨c, hc, -⟩ := (floating_text x).mark
    exact List.ne_nil_of_mem hc

/-- Numbers with the same text are the same; in particular no float is written as an integer. -/
theorem chars_injective : Function.Injective chars := by
  have hforms : ∀ n x, intChars n ≠ layout.text x := by
    intro n x h
    obtain ⟨c, hc, hmark⟩ := (floating_text x).mark
    exact hmark (mem_integerAlphabet (h ▸ hc))
  intro n k h
  cases n with
  | integer n hn =>
    cases k with
    | integer k hk =>
      have hread := ofText?_intChars hn
      have h : intChars n = intChars k := h
      rw [h, ofText?_intChars hk] at hread
      exact (Option.some.inj hread).symm
    | float x _ => exact absurd h (hforms n x)
  | float x _ =>
    cases k with
    | integer k _ => exact absurd h.symm (hforms k x)
    | float y _ =>
      have hxy : x = y := text_injective rfl h
      subst hxy
      rfl

end Json.Number

end ToolDialogue
