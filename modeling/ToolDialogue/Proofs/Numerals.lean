import ToolDialogue.Proofs.Items

/-! Numerals: a sign or none, and then digits. Those in the signed 64-bit range are what is read as
integers, with the value that the digits have. The grammar of JSON takes fewer of them, those
without a plus and without needless zeros, and it agrees on all that it takes but `-0`. -/
namespace ToolDialogue

open Json (Number)

namespace Decimal

structure Digits (ds : List Nat) (text : List Char) : Prop where
  ten : ∀ d ∈ ds, d < 10
  text_eq : text = ds.map Nat.digitChar

/-- The texts that spell an integer, with the integer that they spell. -/
inductive Numeral : List Char → Int → Prop
  | unsigned {ds : List Nat} {text : List Char} (h : Digits ds text) (hne : ds ≠ []) :
      Numeral text (ofDigits ds)
  | plus {ds : List Nat} {text : List Char} (h : Digits ds text) (hne : ds ≠ []) :
      Numeral ('+' :: text) (ofDigits ds)
  | minus {ds : List Nat} {text : List Char} (h : Digits ds text) (hne : ds ≠ []) :
      Numeral ('-' :: text) (-(ofDigits ds))

theorem digit?_eq_some_iff {c : Char} {d : Nat} :
    digit? c = some d ↔ d < 10 ∧ c = Nat.digitChar d := by
  constructor
  · intro h
    unfold digit? at h
    split at h
    · rename_i hrange
      have hlow : 48 ≤ c.toNat := hrange.1
      have hhigh : c.toNat ≤ 57 := hrange.2
      have hd : c.toNat - 48 = d := Option.some.inj h
      have hcode : ∀ d < 10, (Nat.digitChar d).toNat = d + 48 := by decide
      refine ⟨by omega, Char.toNat_inj.1 ?_⟩
      rw [hcode d (by omega)]
      omega
    · contradiction
  · rintro ⟨hd, rfl⟩
    exact digit?_digitChar hd

namespace Digits

variable {ds : List Nat} {text : List Char}

theorem nil_iff : Digits ds [] ↔ ds = [] := by
  constructor
  · intro h
    exact List.map_eq_nil_iff.1 h.text_eq.symm
  · rintro rfl
    exact ⟨by simp, rfl⟩

theorem cons_iff {c : Char} : Digits ds (c :: text) ↔
    ∃ d rest, ds = d :: rest ∧ digit? c = some d ∧ Digits rest text := by
  constructor
  · rintro ⟨hten, htext⟩
    cases ds with
    | nil => contradiction
    | cons d rest =>
      obtain ⟨hd, hrest⟩ := List.forall_mem_cons.1 hten
      obtain ⟨rfl, rfl⟩ := List.cons.inj htext
      exact ⟨d, rest, rfl, digit?_digitChar hd, hrest, rfl⟩
  · rintro ⟨d, rest, rfl, hc, hrest⟩
    obtain ⟨hd, rfl⟩ := digit?_eq_some_iff.1 hc
    exact ⟨List.forall_mem_cons.2 ⟨hd, hrest.ten⟩, by rw [hrest.text_eq, List.map_cons]⟩

theorem sign_eq (h : Digits ds text) : sign text = (false, text) := by
  unfold sign
  split
  · obtain ⟨d, rest, -, hd, -⟩ := cons_iff.1 h
    simp [digit?] at hd
  · obtain ⟨d, rest, -, hd, -⟩ := cons_iff.1 h
    simp [digit?] at hd
  · rfl

theorem leadingDigits_eq (h : Digits ds text) : leadingDigits text = (ds, []) := by
  have hlead : leadingDigits (ds.map Nat.digitChar ++ []) = (ds, []) :=
    leadingDigits_map_digitChar h.ten (by simp)
  rwa [List.append_nil, ← h.text_eq] at hlead

end Digits

theorem digits_leadingDigits {text rest : List Char} {ds : List Nat}
    (h : leadingDigits text = (ds, rest)) : ∃ start, Digits ds start ∧ text = start ++ rest := by
  induction text generalizing ds with
  | nil =>
    cases h
    exact ⟨[], Digits.nil_iff.2 rfl, rfl⟩
  | cons c text ih =>
    rw [leadingDigits] at h
    split at h
    · rename_i d hd
      cases h
      obtain ⟨start, hstart, htext⟩ := ih rfl
      refine ⟨c :: start, Digits.cons_iff.2 ⟨d, _, rfl, hd, hstart⟩, ?_⟩
      exact congrArg (c :: ·) htext
    · cases h
      exact ⟨[], Digits.nil_iff.2 rfl, rfl⟩

def signed (minus : Bool) (k : Nat) : Int :=
  if minus then -k else k

@[simp] theorem signed_false (k : Nat) : signed false k = k := rfl

@[simp] theorem signed_true (k : Nat) : signed true k = -k := rfl

theorem numeral_iff {text : List Char} {n : Int} : Numeral text n ↔
    ∃ ds, Digits ds (sign text).2 ∧ ds ≠ [] ∧ n = signed (sign text).1 (ofDigits ds) := by
  constructor
  · intro h
    cases h with
    | @unsigned ds text h hne => exact ⟨ds, by rwa [h.sign_eq], hne, by rw [h.sign_eq]; rfl⟩
    | @plus ds text h hne => exact ⟨ds, h, hne, rfl⟩
    | @minus ds text h hne => exact ⟨ds, h, hne, rfl⟩
  · rintro ⟨ds, h, hne, rfl⟩
    unfold sign at h ⊢
    split at h
    · exact .minus h hne
    · exact .plus h hne
    · exact .unsigned h hne

theorem Numeral.unique {text : List Char} {n m : Int} (hn : Numeral text n) (hm : Numeral text m) :
    n = m := by
  obtain ⟨ds, hds, -, rfl⟩ := numeral_iff.1 hn
  obtain ⟨es, hes, -, rfl⟩ := numeral_iff.1 hm
  have hdigits : (ds, []) = (es, []) := hds.leadingDigits_eq.symm.trans hes.leadingDigits_eq
  rw [(Prod.mk.inj hdigits).1]

def FitsInt64 (n : Int) : Prop :=
  Int64.minValue.toInt ≤ n ∧ n ≤ Int64.maxValue.toInt

theorem fitsInt64_iff {n : Int} : FitsInt64 n ↔ -2 ^ 63 ≤ n ∧ n < 2 ^ 63 := by
  have hmin : Int64.minValue.toInt = -2 ^ 63 := rfl
  have hmax : Int64.maxValue.toInt = 2 ^ 63 - 1 := rfl
  rw [FitsInt64, hmin, hmax]
  omega

theorem fitsInt64_toInt (n : Int64) : FitsInt64 n.toInt :=
  fitsInt64_iff.2 ⟨n.le_toInt, n.toInt_lt⟩

theorem toInt_ofInt_of_fits {n : Int} (h : FitsInt64 n) : (Int64.ofInt n).toInt = n :=
  have h := fitsInt64_iff.1 h
  Int64.toInt_ofInt_of_le h.1 h.2

theorem next_signed (minus : Bool) (k d : Nat) :
    (if minus then signed minus k * 10 - d else signed minus k * 10 + d) =
      signed minus (k * 10 + d) := by
  cases minus
  · simp
  · simp
    omega

/-- Once a number does not fit, no further digit makes it fit. -/
theorem fitsInt64_of_foldl {minus : Bool} {ds : List Nat} {k : Nat}
    (h : FitsInt64 (signed minus (ds.foldl (fun n d => n * 10 + d) k))) :
    FitsInt64 (signed minus k) := by
  have hle := Json.Number.le_foldl_digits ds k
  rw [fitsInt64_iff] at h ⊢
  cases minus with
  | false =>
    rw [signed_false] at h ⊢
    omega
  | true =>
    rw [signed_true] at h ⊢
    omega

theorem int64Digits_eq_ok_iff {minus : Bool} {k : Nat} (hk : FitsInt64 (signed minus k))
    {text : List Char} {m : Int} : int64Digits minus (signed minus k) text = .ok m ↔
      ∃ ds, Digits ds text ∧ m = signed minus (ds.foldl (fun n d => n * 10 + d) k) ∧
        FitsInt64 m := by
  induction text generalizing k with
  | nil =>
    simp only [int64Digits, Except.ok.injEq, Digits.nil_iff]
    constructor
    · rintro rfl
      exact ⟨[], rfl, rfl, hk⟩
    · rintro ⟨ds, rfl, rfl, -⟩
      rfl
  | cons c text ih =>
    cases hc : digit? c with
    | none => simp [int64Digits, Digits.cons_iff, hc]
    | some d =>
      simp only [int64Digits, hc, next_signed]
      constructor
      · intro h
        split at h
        · contradiction
        · rename_i hlow
          split at h
          · contradiction
          · rename_i hhigh
            obtain ⟨ds, hds, hm⟩ := (ih ⟨Int.not_lt.1 hlow, Int.not_lt.1 hhigh⟩).1 h
            exact ⟨d :: ds, Digits.cons_iff.2 ⟨d, ds, rfl, hc, hds⟩, hm⟩
      · rintro ⟨ds, hds, rfl, hm⟩
        obtain ⟨e, ds, rfl, he, hrest⟩ := Digits.cons_iff.1 hds
        rw [hc] at he
        cases he
        rw [List.foldl_cons] at hm ⊢
        have hfits := fitsInt64_of_foldl hm
        rw [if_neg (Int.not_lt.2 hfits.1), if_neg (Int.not_lt.2 hfits.2)]
        exact (ih hfits).2 ⟨ds, hrest, rfl, hm⟩

/-- The texts that are read as signed 64-bit integers are the numerals in range, and the value is
that of the numeral. -/
theorem readInt64_eq_ok_iff {text : List Char} {n : Int64} :
    readInt64 text = .ok n ↔ Numeral text n.toInt := by
  rw [numeral_iff]
  cases text with
  | nil => simp [readInt64, sign, Digits.nil_iff]
  | cons c rest =>
    rw [readInt64, if_neg (by simp)]
    generalize sign (c :: rest) = parts
    obtain ⟨minus, digits⟩ := parts
    cases digits with
    | nil => simp [Digits.nil_iff]
    | cons first digits =>
      have hzero : FitsInt64 (signed minus 0) := by
        cases minus <;> exact ⟨by decide, by decide⟩
      have hread (m : Int) : int64Digits minus (signed minus 0) (first :: digits) = .ok m ↔
          ∃ ds, Digits ds (first :: digits) ∧ m = signed minus (ofDigits ds) ∧ FitsInt64 m :=
        int64Digits_eq_ok_iff hzero
      have hstart : signed minus 0 = 0 := by cases minus <;> rfl
      rw [hstart] at hread
      dsimp only
      rw [if_neg (by simp)]
      constructor
      · intro h
        cases hm : int64Digits minus 0 (first :: digits) with
        | error fault =>
          rw [hm] at h
          contradiction
        | ok m =>
          rw [hm] at h
          cases h
          obtain ⟨ds, hds, rfl, hfits⟩ := (hread m).1 hm
          refine ⟨ds, hds, ?_, toInt_ofInt_of_fits hfits⟩
          rintro rfl
          simp [Digits.cons_iff] at hds
      · rintro ⟨ds, hds, -, hn⟩
        rw [(hread n.toInt).2 ⟨ds, hds, hn, fitsInt64_toInt n⟩]
        simp [Except.map]

end Decimal

namespace Json.Number

open Decimal

theorem full_foldl_whole {r : Reading} (h : r.full = true) (ds : List Nat) :
    (ds.foldl Reading.whole r).full = true := by
  induction ds generalizing r with
  | nil => exact h
  | cons d ds ih =>
    rw [List.foldl_cons]
    apply ih
    simp [Reading.whole, h]

theorem foldl_whole_of_not_full {ds : List Nat} {n : Nat}
    (h : (ds.foldl Reading.whole ⟨n, 0, false⟩).full = false) :
    ds.foldl Reading.whole ⟨n, 0, false⟩ = ⟨ds.foldl (fun n d => n * 10 + d) n, 0, false⟩ := by
  induction ds generalizing n with
  | nil => rfl
  | cons d ds ih =>
    rw [List.foldl_cons] at h ⊢
    by_cases hfits : maxInteger < (n : Int) * 10 + d
    · have hfull : (Reading.whole ⟨n, 0, false⟩ d).full = true := by
        simp [Reading.whole, hfits]
      rw [full_foldl_whole hfull] at h
      contradiction
    · have hstep : Reading.whole ⟨n, 0, false⟩ d = ⟨n * 10 + d, 0, false⟩ := by
        simp [Reading.whole, hfits]
      rw [hstep] at h ⊢
      exact ih h

theorem ne_integer_of_ofFloat? {x : Float} {k : Number} (h : ofFloat? x = some k) (n : Int)
    (fits : minInteger ≤ n ∧ n ≤ maxInteger) : k ≠ .integer n fits := by
  unfold ofFloat? at h
  split at h
  · cases h
    simp
  · contradiction

theorem ne_integer_of_signedFloat? {minus : Bool} {significand : Nat} {exponent : Int} {k : Number}
    (h : signedFloat? minus significand exponent = some k) (n : Int)
    (fits : minInteger ≤ n ∧ n ≤ maxInteger) : k ≠ .integer n fits := by
  obtain ⟨x, -, hx⟩ := Option.bind_eq_some_iff.1 h
  exact ne_integer_of_ofFloat? hx n fits

theorem eq_of_ofInt? {n m : Int} {fits : minInteger ≤ m ∧ m ≤ maxInteger}
    (h : ofInt? n = some (.integer m fits)) : m = n := by
  unfold ofInt? at h
  split at h
  · cases h
    rfl
  · contradiction

theorem eq_of_ofSignificand? {minus : Bool} {k : Nat} {n : Int}
    {fits : minInteger ≤ n ∧ n ≤ maxInteger}
    (h : ofSignificand? minus k = some (.integer n fits)) : n = signed minus k := by
  unfold ofSignificand? at h
  cases minus with
  | false => exact eq_of_ofInt? h
  | true =>
    rw [if_pos rfl] at h
    split at h
    · exact absurd rfl (ne_integer_of_ofFloat? h n fits)
    · split at h
      · rename_i r hr
        cases h
        exact eq_of_ofInt? hr
      · exact absurd rfl (ne_integer_of_ofFloat? h n fits)

theorem wholeDigits?_eq_some_iff {text rest : List Char} {ds : List Nat} :
    wholeDigits? text = some (ds, rest) ↔
      leadingDigits text = (ds, rest) ∧ ds ≠ [] ∧ (ds.head? = some 0 → ds = [0]) := by
  unfold wholeDigits?
  generalize leadingDigits text = parts
  split
  · constructor
    · intro h
      contradiction
    · rintro ⟨h, hne, -⟩
      cases h
      contradiction
  · constructor
    · intro h
      contradiction
    · rintro ⟨h, -, hzero⟩
      cases h
      exact absurd (hzero rfl) (by simp)
  · rename_i hnil hneedless
    constructor
    · intro h
      cases h
      refine ⟨rfl, fun hds => hnil rest (by rw [hds]), fun hzero => ?_⟩
      match ds with
      | [d] =>
        cases hzero
        rfl
      | d :: e :: es =>
        cases hzero
        exact absurd rfl (hneedless e es rest)
    · rintro ⟨h, -⟩
      exact congrArg some h

theorem digits_of_readUnsigned? {minus : Bool} {text : List Char} {n : Int}
    {fits : minInteger ≤ n ∧ n ≤ maxInteger}
    (h : readUnsigned? minus text = some (.integer n fits, [])) :
    ∃ ds, Digits ds text ∧ ds ≠ [] ∧ n = signed minus (ofDigits ds) := by
  rw [readUnsigned?] at h
  obtain ⟨⟨ds, rest⟩, hwhole, hread⟩ := Option.bind_eq_some_iff.1 h
  obtain ⟨hlead, hne, -⟩ := wholeDigits?_eq_some_iff.1 hwhole
  obtain ⟨start, hstart, htext⟩ := digits_leadingDigits hlead
  dsimp only at hread
  split at hread
  · split at hread
    · contradiction
    · obtain ⟨⟨e, behind⟩, -, hread⟩ := Option.bind_eq_some_iff.1 hread
      obtain ⟨k, hk, hread⟩ := Option.bind_eq_some_iff.1 hread
      cases hread
      exact absurd rfl (ne_integer_of_signedFloat? hk n fits)
  · obtain ⟨⟨e, behind⟩, -, hread⟩ := Option.bind_eq_some_iff.1 hread
    dsimp only at hread
    split at hread
    · obtain ⟨k, hk, hread⟩ := Option.bind_eq_some_iff.1 hread
      cases hread
      exact absurd rfl (ne_integer_of_signedFloat? hk n fits)
    · rename_i hfull
      obtain ⟨k, hk, hread⟩ := Option.bind_eq_some_iff.1 hread
      cases hread
      simp only [Bool.or_eq_true, not_or, Bool.not_eq_true] at hfull
      rw [foldl_whole_of_not_full hfull.1] at hk
      rw [List.append_nil] at htext
      exact ⟨ds, htext ▸ hstart, hne, eq_of_ofSignificand? hk⟩

theorem toInt64?_eq_some_iff {k : Number} {n : Int64} :
    k.toInt64? = some n ↔ ∃ fits, k = .integer n.toInt fits := by
  cases k with
  | float x finite => simp [toInt64?]
  | integer m fits =>
    have hmax : Int64.maxValue.toInt = 2 ^ 63 - 1 := rfl
    rw [toInt64?, Option.ite_none_right_eq_some]
    constructor
    · rintro ⟨hle, h⟩
      cases h
      have hm : (Int64.ofInt m).toInt = m := by
        have := fits.1
        simp only [minInteger] at this
        exact Int64.toInt_ofInt_of_le (by omega) (by omega)
      simp [hm, fits]
    · rintro ⟨_, h⟩
      cases h
      have := n.toInt_lt
      exact ⟨by omega, congrArg some (Int64.ofInt_toInt n)⟩

theorem numeral_of_ofText? {text : List Char} {n : Int} {fits : minInteger ≤ n ∧ n ≤ maxInteger}
    (h : ofText? text = some (.integer n fits)) : Numeral text n := by
  have hread : read? text = some (.integer n fits, []) := by
    unfold ofText? at h
    split at h
    · cases h
      assumption
    · contradiction
  unfold read? at hread
  split at hread
  · obtain ⟨ds, hds, hne, rfl⟩ := digits_of_readUnsigned? hread
    exact .minus hds hne
  · obtain ⟨ds, hds, hne, rfl⟩ := digits_of_readUnsigned? hread
    exact .unsigned hds hne

/-- Digits alone are no number, because of a zero in front of them, or the integer of their sign and
value. -/
theorem readUnsigned?_digits (minus : Bool) {ds : List Nat} {text : List Char} (h : Digits ds text)
    (hfits : (ofDigits ds : Int) ≤ maxInteger) : readUnsigned? minus text = none ∨
      (ds.head? = some 0 → ds = [0]) ∧
        readUnsigned? minus text = (ofSignificand? minus (ofDigits ds)).map fun r => (r, []) := by
  cases hwhole : wholeDigits? text with
  | none => exact .inl (by rw [readUnsigned?, hwhole]; rfl)
  | some parts =>
    obtain ⟨es, rest⟩ := parts
    obtain ⟨hlead, -, hzero⟩ := wholeDigits?_eq_some_iff.1 hwhole
    rw [h.leadingDigits_eq] at hlead
    cases hlead
    have hfold : ds.foldl Reading.whole ⟨0, 0, false⟩ = ⟨ofDigits ds, 0, false⟩ :=
      foldl_whole hfits
    refine .inr ⟨hzero, ?_⟩
    rw [readUnsigned?, hwhole, Option.bind_eq_bind, Option.bind_some]
    simp only [hfold, readExponent]
    cases ofSignificand? minus (ofDigits ds) <;> rfl

/-- Without needless zeros only the digit zero has the value zero. -/
theorem eq_zero_of_ofDigits {ds : List Nat} (hne : ds ≠ []) (hzero : ds.head? = some 0 → ds = [0])
    (h : ofDigits ds = 0) : ds = [0] := by
  cases ds with
  | nil => contradiction
  | cons d ds =>
    have hle := le_foldl_digits ds (0 * 10 + d)
    rw [ofDigits, List.foldl_cons] at h
    apply hzero
    rw [List.head?_cons, show d = 0 by omega]

/-- A numeral in range is no number or the integer that it spells, and only `-0` is a float. -/
theorem ofText?_numeral {text : List Char} {n : Int} (h : Numeral text n) (hn : FitsInt64 n)
    (hzero : text ≠ "-0".toList) :
    ofText? text = none ∨ ∃ fits, ofText? text = some (.integer n fits) := by
  have hrange : minInteger ≤ n ∧ n ≤ maxInteger := by
    have := fitsInt64_iff.1 hn
    simp only [minInteger, maxInteger]
    omega
  -- what is read behind the sign decides
  suffices hread : read? text = none ∨ read? text = some (.integer n hrange, []) by
    rcases hread with hread | hread
    · exact .inl (by rw [ofText?, hread])
    · exact .inr ⟨hrange, by rw [ofText?, hread]⟩
  cases h with
  | @plus ds text h hne => exact .inl rfl
  | @unsigned ds text h hne =>
    have hread : read? text = readUnsigned? false text := by
      unfold read?
      split
      · have hsign : true = false := congrArg Prod.fst h.sign_eq
        contradiction
      · rfl
    rw [hread]
    rcases readUnsigned?_digits false h hrange.2 with hnone | ⟨-, hsome⟩
    · exact .inl hnone
    · refine .inr ?_
      rw [hsome, ofSignificand?, if_neg Bool.false_ne_true, ofInt?, dif_pos hrange]
      rfl
  | @minus ds text h hne =>
    have hread : read? ('-' :: text) = readUnsigned? true text := rfl
    have hdigits : (ofDigits ds : Int) ≤ maxInteger := by
      have := hrange.1
      simp only [minInteger, maxInteger] at this ⊢
      omega
    rw [hread]
    rcases readUnsigned?_digits true h hdigits with hnone | ⟨hlead, hsome⟩
    · exact .inl hnone
    · refine .inr ?_
      have hpos : ofDigits ds ≠ 0 := by
        intro h0
        apply hzero
        rw [h.text_eq, eq_zero_of_ofDigits hne hlead h0]
        rfl
      rw [hsome, ofSignificand?, if_pos rfl, if_neg hpos, ofInt?, dif_pos hrange]
      rfl

end Json.Number

end ToolDialogue
